import Mathlib.Logic.Relation
import BasicScript.Scope.Environment

/-! # What a default is made of

The default of an array is made of defaults of its element type, as many as the
array is long, and the default of a composite of those of its fields, unless
they bring expressions of their own. Data types are looked up by name, in the
scope in which the default is made.
-/

namespace BasicScript

/-- The default of one type is made directly of defaults of another. -/
inductive Environment.Part (env : Environment) : Ty → Ty → Prop where
  | element {element : Ty} {size : Option Nat} : 0 < size.getD 0 →
      Part env (.array element size) element
  | field {name : String} {decl : DataDecl} {field : Field} : env.data? name = some decl →
      field ∈ decl.fields → field.default = none → Part env (.data name) field.type

/-- All types of which the default of a type is made, itself among them. -/
abbrev Environment.Parts (env : Environment) : Ty → Ty → Prop := Relation.ReflTransGen env.Part

/-- The default of a type is made neither of enum entries nor by default expressions. -/
structure Environment.Plain (env : Environment) (t : Ty) : Prop where
  enum : ∀ name, ¬env.Parts t (.enum name)
  field : ∀ name decl, env.Parts t (.data name) → env.data? name = some decl →
    ∀ field ∈ decl.fields, field.default = none

variable {env : Environment} {t u : Ty}

/-- Types that no part leads out of. -/
theorem Environment.Parts.closed (types : Ty → Prop) (ht : types t)
    (hpart : ∀ u w, types u → env.Part u w → types w) (h : env.Parts t u) : types u := by
  induction h with
  | refl => exact ht
  | tail _ hlast ih => exact hpart _ _ ih hlast

namespace Environment.Plain

theorem part (h : env.Plain t) (hpart : env.Part t u) : env.Plain u where
  enum name hparts := h.enum name (.head hpart hparts)
  field name decl hparts := h.field name decl (.head hpart hparts)

theorem field_type {name : String} {decl : DataDecl} (h : env.Plain (.data name))
    (hdecl : env.data? name = some decl) {field : Field} (hfield : field ∈ decl.fields) :
    field.default = none ∧ env.Plain field.type := by
  have hnone := h.field name decl .refl hdecl field hfield
  exact ⟨hnone, h.part (.field hdecl hfield hnone)⟩

/-- Types that no part leads out of, without enums and default expressions among them. -/
theorem of_closed (types : Ty → Prop) (ht : types t)
    (hpart : ∀ u w, types u → env.Part u w → types w) (henum : ∀ name, ¬types (.enum name))
    (hfield : ∀ name decl, types (.data name) → env.data? name = some decl →
      ∀ field ∈ decl.fields, field.default = none) : env.Plain t where
  enum name hu := henum name (hu.closed types ht hpart)
  field name decl hu := hfield name decl (hu.closed types ht hpart)

end Environment.Plain

end BasicScript
