import BasicScript.Proofs.Types.Storage

/-! # Instances of data declarations

A type knows a data declaration by its name, while an instance carries the
declaration it was built from. A place of a data type holds instances of
declarations of that name, and of no others, and all their fields can be read
with their types. A declaration that shares its name with no other is the one
that all instances in the places of its type were built from.
-/

namespace BasicScript

/-- Typed places: variables, parameters and fields, and the elements of arrays. -/
inductive Place where
  | cell (id : CellId)
  | element (id : ArrayId) (index : Nat)

namespace State

/-- A place of a type holds a value. -/
def HoldsAt (s : State) (t : Ty) (v : Value) : Place → Prop
  | .cell id => id.index < s.store.cells.size ∧ (s.store.cell id).type = t ∧ s.store.read id = v
  | .element id i => (s.store.block id).element = t ∧ (s.store.elements id)[i]? = some v

/-- An instance of a data declaration from some scope, whose fields can be read: each gives a value
that belongs to the type of the field. -/
structure IsInstance (s : State) (d : DataDecl) (v : Value) : Prop where
  declared : s.Declares d
  built : ∃ cells, v = .data d cells
  reads : ∀ (member : String) (field : Field), d.fields.find? (·.name == member) = some field →
    ∃ w, Evaluator.getMember v member s = .ok w s ∧ field.type.check s.store w = .ok ()

variable {s : State} {name : String} {v : Value}

theorem Typed.isInstance (h : s.Typed) {d : DataDecl} {cells : List CellId}
    (hv : s.Holds (.data d cells)) : s.IsInstance d (.data d cells) where
  declared := hv.1
  built := ⟨cells, rfl⟩
  reads member field hfield := by
    rw [List.find?_eq_bind_findIdx?_getElem?] at hfield
    obtain ⟨i, hindex, hi⟩ := Option.bind_eq_some_iff.mp hfield
    obtain ⟨hbound, rfl⟩ := List.getElem?_eq_some_iff.mp hi
    have hbound' : i < cells.length := hv.2.length_eq ▸ hbound
    have hcell : s.store.IsField d.fields[i] cells[i] := hv.2.get hbound hbound'
    refine ⟨s.store.read cells[i], ?_, ?_⟩
    · have hfound : (d.fieldIndex? member).bind (fun i => cells[i]?) = some cells[i] := by
        rw [DataDecl.fieldIndex?, hindex, Option.bind_some, List.getElem?_eq_getElem hbound']
      simp only [Evaluator.getMember, Evaluator.fieldCell, hfound]
      rfl
    · rw [← hcell.type]
      exact (h.store.cell_has hcell.bound hcell.present).fits.check h.store

/-- A value that belongs to a data type is an instance of a declaration of its name. -/
theorem Typed.instance_of_has (h : s.Typed) (hv : s.Has (.data name) v) :
    ∃ d, d.name = name ∧ s.IsInstance d v := by
  cases v with
  | data d cells => exact ⟨d, hv.fits, h.isInstance hv.holds⟩
  | _ => exact hv.fits.elim

theorem Typed.holdsAt (h : s.Typed) {place : Place} (hplace : s.HoldsAt (.data name) v place) :
    (∃ id, place = .cell id ∧ s.ResemblesResultSlot id ∧ v = .empty) ∨
      ∃ d, d.name = name ∧ s.IsInstance d v := by
  cases place with
  | cell id =>
    obtain ⟨hbound, htype, rfl⟩ := hplace
    have hcell : s.store.cells[id.index]? = some (s.store.cell id) := by
      rw [Store.cell, Array.getElem?_eq_getElem hbound, Option.getD_some]
    rcases h.store.cells _ _ hcell with hmissing | hv
    · exact .inl ⟨id, rfl, h.slots _ _ hcell hmissing, Value.eq_empty hmissing⟩
    · rw [htype] at hv
      exact .inr (h.instance_of_has hv)
  | element id i =>
    obtain ⟨htype, hi⟩ := hplace
    have hv := h.store.elements_have id v (List.mem_of_getElem? hi)
    rw [htype] at hv
    exact .inr (h.instance_of_has hv)

end State

/-- At every moment of the runs of programs, a place of a data type holds an instance of a
declaration of its name, and of the only one if there are no others of that name. -/
theorem Reaches.instances {settings : Settings} {s : State} {name : String} {place : Place}
    {v : Value} (h : Reaches .standard (.initial settings) s)
    (hplace : s.HoldsAt (.data name) v place) :
    (∃ id, place = .cell id ∧ s.ResemblesResultSlot id ∧ v = .empty) ∨
      ∃ d, d.name = name ∧ s.IsInstance d v ∧ ∀ only, s.Declares only → only.name = name →
        (∀ other, s.Declares other → other.name = name → other = only) → d = only := by
  rcases h.typed.holdsAt hplace with hslot | ⟨d, hname, hd⟩
  · exact .inl hslot
  · exact .inr ⟨d, hname, hd, fun only _ _ hunique => hunique d hd.declared hname⟩

/-- The program `data P { a int }  var x as P = P { 1 }`. -/
def declaringInstance : List Stmt :=
  [.generated (.data "P" [⟨"a", .prim .int, false, none⟩]),
    .generated (.declare "x" (.named "P") (.generated (.instantiate (some (.named "P"))
      [.generated (.literal (.int 1))])) false)]

theorem instances_declaringInstance :
    let s := ((Evaluator.interrupted .standard (fun _ => false) 4).run declaringInstance).state
      (.initial ⟨false, none, true⟩)
    Reaches .standard (.initial ⟨false, none, true⟩) s ∧
      s.HoldsAt (.data "P") (s.store.read ⟨1⟩) (.cell ⟨1⟩) ∧
      ∃ d, d.name = "P" ∧ s.IsInstance d (s.store.read ⟨1⟩) := by
  intro s
  have h : Reaches .standard (.initial ⟨false, none, true⟩) s :=
    .run declaringInstance (fun _ => false) 4 .refl
  have hplace : s.HoldsAt (.data "P") (s.store.read ⟨1⟩) (.cell ⟨1⟩) :=
    ⟨by decide, by decide, rfl⟩
  refine ⟨h, hplace, ?_⟩
  rcases Reaches.instances h hplace with ⟨_, _, _, hempty⟩ | ⟨d, hname, hd, -⟩
  · have hpresent : (s.store.read ⟨1⟩).isMissing = false := by decide
    rw [hempty] at hpresent
    exact nomatch hpresent
  · exact ⟨d, hname, hd⟩

/-- The program `data P { a int }  var x as P = P { 1 }  { data P { b string }  x = P { "s" } }`. -/
def shadowingData : List Stmt :=
  declaringInstance ++ [.generated (.block
    [.generated (.data "P" [⟨"b", .prim .string, false, none⟩]),
      .generated (.expression (.generated (.binary .assign (.generated (.name "x"))
        (.generated (.instantiate (some (.named "P")) [.generated (.literal (.string "s"))])))))])]

/-- Whether a value is an instance of a declaration that has a name and lacks a field. -/
def Value.lacks (name member : String) : Value → Bool
  | .data d _ => d.name == name && (d.fieldIndex? member).isNone
  | _ => false

theorem Evaluator.getMember_lacks {name member : String} {v : Value}
    (h : v.lacks name member = true) (s : State) :
    getMember v member s = Run.fail (.noMember name member) s := by
  cases v with
  | data d cells =>
    obtain ⟨hname, hnone⟩ := Bool.and_eq_true_iff.mp h
    simp only [getMember, fieldCell, Option.isNone_iff_eq_none.mp hnone, Option.bind_none,
      eq_of_beq hname]
    rfl
  | _ => cases h

/-- The program `data P { a }  sub f() as P { }  f()`. -/
def callingWithoutDefault : List Stmt :=
  [.generated (.data "P" [⟨"a", .inferred, false, none⟩]),
    .generated (.sub (.mk "f" [] (.named "P") [] false)),
    .generated (.expression (.generated (.invoke "f" [])))]

/-- A declaration that shadows another of its name gets its instances into the places of the
other, where the fields of the other cannot be read; and a result slot starts without a value
where a declaration has no default. -/
theorem not_only_instances :
    let run := fun program =>
      ((Evaluator.interrupted .standard (fun _ => false) 6).run program).state
        (.initial ⟨false, none, true⟩)
    (∀ program, Reaches .standard (.initial ⟨false, none, true⟩) (run program)) ∧
      (run shadowingData).HoldsAt (.data "P") ((run shadowingData).store.read ⟨1⟩) (.cell ⟨1⟩) ∧
      (((run shadowingData).env.data? "P").bind (·.fieldIndex? "a")).isSome = true ∧
      Evaluator.getMember ((run shadowingData).store.read ⟨1⟩) "a" (run shadowingData) =
        Run.fail (.noMember "P" "a") (run shadowingData) ∧
      (run callingWithoutDefault).HoldsAt (.data "P") .empty (.cell ⟨0⟩) := by
  intro run
  have hlacks : ((run shadowingData).store.read ⟨1⟩).lacks "P" "a" = true := by decide +kernel
  have hmissing : ((run callingWithoutDefault).store.read ⟨0⟩).isMissing = true := by
    decide +kernel
  exact ⟨fun program => .run program (fun _ => false) 6 .refl,
    ⟨by decide +kernel, by decide +kernel, rfl⟩, by decide +kernel,
    Evaluator.getMember_lacks hlacks _,
    ⟨by decide +kernel, by decide +kernel, Value.eq_empty hmissing⟩⟩

end BasicScript
