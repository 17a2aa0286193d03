import BasicScript.Proofs.Types.Allocation
import Mathlib.Data.List.Forall2

/-! # Values that fit their types

A value fits a type as a typed place wants it: an array then has exactly the
element type in question. In a store in which everything fits its place, such
a value passes the test of membership and is left unchanged by coercion.
-/

namespace BasicScript

/-- The length that an array type asks for. -/
def Ty.size? : Ty → Option Nat
  | .array _ size => size
  | _ => none

namespace Store

/-- Whether a value belongs to a type, where an array goes by its element type and its length. -/
def Fits (σ : Store) : Ty → Value → Prop
  | _, .empty => False
  | .inferred, _ => True
  | .prim p, v => p.admits v = true
  | .array element size, .array id =>
    (element.acceptsAnything = true ∨ (σ.block id).element = element) ∧
      ∀ n, size = some n → (σ.elements id).length = n
  | .vararg element, .array id =>
    element.acceptsAnything = true ∨ (σ.block id).element = element
  | .data name, .data d _ => d.name = name
  | .enum name, .entry owner _ _ _ => owner = name
  | _, _ => False

/-- A cell that stands for a field of a data declaration, and has been given a value. -/
structure IsField (σ : Store) (field : Field) (id : CellId) : Prop where
  bound : id.index < σ.cells.size
  type : (σ.cell id).type = field.type
  constant : (σ.cell id).constant = field.constant
  present : (σ.read id).isMissing = false

/-- A value whose handles lead to storage, and whose data declarations are among the given. -/
def Holds (declared : DataDecl → Prop) (σ : Store) : Value → Prop
  | .array id => id.index < σ.arrays.size
  | .data d cells => declared d ∧ List.Forall₂ σ.IsField d.fields cells
  | .entry _ _ _ v => Holds declared σ v
  | _ => True

/-- A value for a place of a type. -/
structure Has (declared : DataDecl → Prop) (σ : Store) (t : Ty) (v : Value) : Prop where
  holds : σ.Holds declared v
  fits : σ.Fits t v

/-- A store in which all values fit their places; only cells may lack a value. -/
structure Typed (declared : DataDecl → Prop) (σ : Store) : Prop where
  cells : ∀ (i : Nat) (c : Cell), σ.cells[i]? = some c →
    c.value.isMissing = true ∨ σ.Has declared c.type c.value
  arrays : ∀ (i : Nat) (b : ArrayBlock), σ.arrays[i]? = some b →
    ∀ v ∈ b.values.toList, σ.Has declared b.element v

variable {declared : DataDecl → Prop} {σ σ' : Store} {t : Ty} {v : Value}

theorem Fits.present (h : σ.Fits t v) : v.isMissing = false := by
  cases v with
  | empty => cases t <;> exact h.elim
  | _ => rfl

theorem IsField.grows {field : Field} {id : CellId} (h : σ.IsField field id)
    (hg : σ.Grows σ') : σ'.IsField field id where
  bound := Nat.lt_of_lt_of_le h.bound hg.cells.size_le
  type := (hg.cell h.bound).type.trans h.type
  constant := (hg.cell h.bound).constant.trans h.constant
  present := (hg.cell h.bound).present h.present

/-- What a value leads to stays as more is stored and declared. -/
theorem Holds.grows {declared' : DataDecl → Prop} (h : σ.Holds declared v)
    (hg : σ.Grows σ') (hd : ∀ d, declared d → declared' d) : σ'.Holds declared' v := by
  induction v with
  | array id => exact Nat.lt_of_lt_of_le h hg.arrays.size_le
  | data d cells => exact ⟨hd d h.1, h.2.imp fun _ _ hfield => hfield.grows hg⟩
  | entry _ _ _ _ ih => exact ih h
  | _ => trivial

theorem Fits.grows (h : σ.Fits t v) (hv : σ.Holds declared v) (hg : σ.Grows σ') :
    σ'.Fits t v := by
  cases v with
  | array id =>
    have hkeeps := hg.block hv
    have hlength : (σ'.elements id).length = (σ.elements id).length := hkeeps.size
    cases t with
    | array element size =>
      exact ⟨h.1.imp_right hkeeps.element.trans, fun n hn => hlength.trans (h.2 n hn)⟩
    | vararg element => exact Or.imp_right hkeeps.element.trans h
    | _ => exact h
  | _ => cases t <;> exact h

theorem Has.grows {declared' : DataDecl → Prop} (h : σ.Has declared t v) (hg : σ.Grows σ')
    (hd : ∀ d, declared d → declared' d) : σ'.Has declared' t v :=
  ⟨h.holds.grows hg hd, h.fits.grows h.holds hg⟩

theorem Typed.mono {declared' : DataDecl → Prop} (h : σ.Typed declared)
    (hd : ∀ d, declared d → declared' d) : σ.Typed declared' where
  cells i c hc := (h.cells i c hc).imp_right fun hv => hv.grows (.refl σ) hd
  arrays i b hb v hv := (h.arrays i b hb v hv).grows (.refl σ) hd

/-- A missing value leads nowhere. -/
theorem Holds.missing (h : v.isMissing = true) : σ.Holds declared v := by
  cases v with
  | empty => trivial
  | _ => exact nomatch h

theorem Typed.cell_holds (h : σ.Typed declared) (id : CellId) :
    σ.Holds declared (σ.read id) := by
  unfold Store.read Store.cell
  cases hc : σ.cells[id.index]? with
  | none => trivial
  | some c => exact (h.cells _ c hc).elim .missing Has.holds

theorem Typed.cell_has (h : σ.Typed declared) {id : CellId} (hid : id.index < σ.cells.size)
    (hv : (σ.read id).isMissing = false) : σ.Has declared (σ.cell id).type (σ.read id) := by
  have hc : σ.cells[id.index]? = some (σ.cell id) := by
    rw [Store.cell, Array.getElem?_eq_getElem hid, Option.getD_some]
  refine (h.cells _ _ hc).resolve_left ?_
  rw [show (σ.cell id).value = σ.read id from rfl, hv]
  exact Bool.false_ne_true

theorem Typed.elements_have (h : σ.Typed declared) (id : ArrayId) :
    ∀ v ∈ σ.elements id, σ.Has declared (σ.block id).element v := by
  intro v hv
  unfold Store.elements at hv
  cases hb : σ.arrays[id.index]? with
  | none =>
    simp only [Store.block, hb, Option.getD_none, List.not_mem_nil] at hv
  | some b =>
    have hblock : σ.block id = b := by rw [Store.block, hb, Option.getD_some]
    rw [hblock] at hv ⊢
    exact h.arrays _ b hb v hv

theorem fits_array {element : Ty} (h : t.element? = some element) (id : ArrayId) :
    σ.Fits t (.array id) ↔ (∀ n, t.size? = some n → (σ.elements id).length = n) ∧
      (element.acceptsAnything = true ∨ (σ.block id).element = element) := by
  cases t with
  | array element size => cases h; exact And.comm
  | vararg element => cases h; exact ⟨fun hf => ⟨fun _ hn => (nomatch hn), hf⟩, And.right⟩
  | _ => exact nomatch h

theorem Fits.is_array {element : Ty} (h : t.element? = some element) (hf : σ.Fits t v) :
    ∃ id, v = .array id := by
  cases t with
  | array element size => cases v with
    | array id => exact ⟨id, rfl⟩
    | _ => exact hf.elim
  | vararg element => cases v with
    | array id => exact ⟨id, rfl⟩
    | _ => exact hf.elim
  | _ => exact nomatch h

end Store

namespace Ty

variable {t element : Ty} {σ σ' : Store} {v : Value}

theorem forM_ok {α ε : Type} {f : α → Except ε Unit} (xs : List α) :
    xs.forM f = .ok () ↔ ∀ x ∈ xs, f x = .ok () := by
  induction xs with
  | nil => exact ⟨fun _ _ hx => (nomatch hx), fun _ => rfl⟩
  | cons x xs ih =>
    show (f x >>= fun _ => xs.forM f) = .ok () ↔ _
    rw [List.forall_mem_cons, ← ih]
    cases hx : f x with
    | ok u => exact ⟨fun h => ⟨rfl, h⟩, fun h => h.2⟩
    | error e => exact ⟨fun h => (nomatch h), fun h => nomatch h.1⟩

theorem check_array (h : t.element? = some element) (σ : Store) (id : ArrayId) :
    t.check σ (.array id) = .ok () ↔ (∀ n, t.size? = some n → (σ.elements id).length = n) ∧
      (element.acceptsAnything = true ∨ ∀ w ∈ σ.elements id, element.check σ w = .ok ()) := by
  have hall : (if element.acceptsAnything = true then Except.ok ()
      else (σ.elements id).forM (element.check σ)) = .ok () ↔
      element.acceptsAnything = true ∨ ∀ w ∈ σ.elements id, element.check σ w = .ok () := by
    rw [← forM_ok]
    by_cases hany : element.acceptsAnything = true
    · simp only [hany, if_true, true_or]
    · rw [if_neg hany, or_iff_right hany]
  cases t with
  | array element size =>
    cases h
    cases size with
    | none => exact hall.trans ⟨fun hc => ⟨fun _ hn => (nomatch hn), hc⟩, And.right⟩
    | some n =>
      show (if (σ.elements id).length ≠ n then _ else _) = _ ↔ _
      by_cases hn : (σ.elements id).length = n
      · rw [if_neg (not_not_intro hn)]
        exact hall.trans ⟨fun hc => ⟨fun _ hm => hn.trans (Option.some.inj hm), hc⟩, And.right⟩
      · rw [if_pos hn]
        exact ⟨fun hc => (nomatch hc), fun hc => absurd (hc.1 n rfl) hn⟩
  | vararg element =>
    cases h
    exact hall.trans ⟨fun hc => ⟨fun _ hn => (nomatch hn), hc⟩, And.right⟩
  | _ => exact nomatch h

theorem check_is_array (h : t.element? = some element) (hc : t.check σ v = .ok ()) :
    ∃ id, v = .array id := by
  cases v with
  | array id => exact ⟨id, rfl⟩
  | _ =>
    cases t with
    | array element size => exact nomatch hc
    | vararg element => exact nomatch hc
    | _ => exact nomatch h

/-- Apart from arrays, membership says the same in every store. -/
theorem check_scalar {τ : Store} (h : t.element? = none) : t.check σ v = .ok () ↔ τ.Fits t v := by
  cases t with
  | array element size => exact nomatch h
  | vararg element => exact nomatch h
  | inferred =>
    cases v with
    | empty => exact ⟨fun hc => (nomatch hc), False.elim⟩
    | _ => exact ⟨fun _ => trivial, fun _ => rfl⟩
  | prim p =>
    have hadmits : (if p.admits v = true then Except.ok () else .error Mismatch.type) = .ok () ↔
        p.admits v = true := by
      by_cases hp : p.admits v = true
      · simp only [hp, if_true]
      · simp only [hp, if_false, reduceCtorEq]
    cases v with
    | empty => exact ⟨fun hc => (nomatch hc), False.elim⟩
    | _ => exact hadmits
  | data name =>
    cases v with
    | data d cells =>
      show (if d.name = name then Except.ok () else .error Mismatch.type) = .ok () ↔ d.name = name
      by_cases hd : d.name = name
      · simp only [hd, if_true]
      · simp only [hd, if_false, reduceCtorEq]
    | _ => exact ⟨fun hc => (nomatch hc), False.elim⟩
  | enum name =>
    cases v with
    | entry owner _ _ _ =>
      show (if owner = name then Except.ok () else .error Mismatch.type) = .ok () ↔ owner = name
      by_cases hd : owner = name
      · simp only [hd, if_true]
      · simp only [hd, if_false, reduceCtorEq]
    | _ => exact ⟨fun hc => (nomatch hc), False.elim⟩

end Ty

namespace Store

variable {declared : DataDecl → Prop} {σ σ' : Store} {t element : Ty} {v w : Value}

theorem newArray_bound (σ : Store) (element : Ty) (vs : List Value) :
    (σ.newArray element vs).1.index < (σ.newArray element vs).2.arrays.size := by
  show σ.arrays.size < (σ.arrays.push _).size
  rw [Array.size_push]
  exact Nat.lt_succ_self _

theorem Typed.newArray (h : σ.Typed declared) {vs : List Value}
    (hvs : ∀ v ∈ vs, σ.Has declared element v) :
    (σ.newArray element vs).2.Typed declared where
  cells i c hc :=
    (h.cells i c hc).imp_right fun hv => hv.grows (.newArray σ element vs) fun _ h => h
  arrays i b hb v hv := by
    refine Has.grows (σ := σ) ?_ (.newArray σ element vs) fun _ h => h
    have hb' : (σ.arrays.push ⟨element, vs.toArray⟩)[i]? = some b := hb
    rw [Array.getElem?_push] at hb'
    split at hb'
    · cases hb'
      exact hvs v hv
    · exact h.arrays i b hb' v hv

theorem Typed.newCell (h : σ.Typed declared) {c : Cell}
    (hc : c.value.isMissing = true ∨ σ.Has declared c.type c.value) :
    (σ.newCell c).2.Typed declared where
  cells i c' hc' := by
    refine Or.imp_right (fun hv => Has.grows (σ := σ) hv (.newCell σ c) fun _ h => h) ?_
    have hc'' : (σ.cells.push c)[i]? = some c' := hc'
    rw [Array.getElem?_push] at hc''
    split at hc''
    · cases hc''
      exact hc
    · exact h.cells i c' hc''
  arrays i b hb v hv := (h.arrays i b hb v hv).grows (.newCell σ c) fun _ h => h

theorem Typed.write (h : σ.Typed declared) {id : CellId} (hc : (σ.cell id).constant = false)
    (hv : σ.Has declared (σ.cell id).type v) : (σ.write id v).Typed declared where
  cells i c hc' := by
    have hg : σ.Grows (σ.write id v) := .write hc hv.fits.present
    refine Or.imp_right (fun hv => Has.grows (σ := σ) hv hg fun _ h => h) ?_
    have hc'' : (σ.cells.modify id.index fun c => { c with value := v })[i]? = some c := hc'
    rw [Array.getElem?_modify] at hc''
    split at hc''
    · next hi =>
      obtain ⟨c₀, hc₀, rfl⟩ := Option.map_eq_some_iff.mp hc''
      refine .inr ?_
      rwa [Store.cell, hi, hc₀, Option.getD_some] at hv
    · exact h.cells i c hc''
  arrays i b hb w hw :=
    (h.arrays i b hb w hw).grows (.write hc hv.fits.present) fun _ h => h

theorem Typed.setElement (h : σ.Typed declared) {id : ArrayId} (i : Nat)
    (hv : σ.Has declared (σ.block id).element v) : (σ.setElement id i v).Typed declared where
  cells j c hc := (h.cells j c hc).imp_right fun hw =>
    hw.grows (.setElement σ id i v) fun _ h => h
  arrays j b hb w hw := by
    refine Has.grows (σ := σ) ?_ (.setElement σ id i v) fun _ h => h
    have hb' : (σ.arrays.modify id.index fun b =>
      { b with values := b.values.setIfInBounds i v })[j]? = some b := hb
    rw [Array.getElem?_modify] at hb'
    split at hb'
    · next hj =>
      obtain ⟨b₀, hb₀, rfl⟩ := Option.map_eq_some_iff.mp hb'
      rw [Store.block, hj, hb₀, Option.getD_some] at hv
      rw [Array.toList_setIfInBounds] at hw
      rcases List.mem_or_eq_of_mem_set hw with hmem | rfl
      · exact h.arrays j b₀ hb₀ w hmem
      · exact hv
    · exact h.arrays j b hb' w hw

end Store

theorem Primitive.admits_kind {p : Primitive} {k : NumericKind} {v : Value}
    (hk : p.kind? = some k) (h : p.admits v = true) : ∃ n, v = .number n ∧ n.kind = k := by
  cases v with
  | number n =>
    refine ⟨n, rfl, ?_⟩
    cases p <;> simp_all [Primitive.admits, Primitive.kind?]
  | _ => cases p <;> simp_all [Primitive.admits, Primitive.kind?]

theorem Primitive.admits_number {p : Primitive} {n : Number} (h : p.kind? = some n.kind) :
    p.admits (.number n) = true := by
  cases p <;> simp_all [Primitive.admits, Primitive.kind?]

theorem Coerced.each_same {f : Store → Value → Coerced} {σ : Store} {vs : List Value}
    (h : ∀ v ∈ vs, f σ v = .same) : each f σ vs = some (false, vs, σ) := by
  induction vs with
  | nil => rfl
  | cons v vs ih =>
    rw [List.forall_mem_cons] at h
    simp only [each, h.1, ih h.2]

/-- Apart from arrays, what belongs to a type is not converted. -/
theorem Ty.coerce_scalar_same {t : Ty} {σ : Store} {v : Value} (ht : t.element? = none)
    (h : t.check σ v = .ok ()) : t.coerce σ v = .same := by
  cases t with
  | prim p =>
    cases hk : p.kind? with
    | none => simp only [Ty.coerce, hk]
    | some k =>
      have hfits := (check_scalar (τ := σ) ht).mp h
      have hadmits : p.admits v = true := by
        cases v with
        | empty => exact hfits.elim
        | _ => exact hfits
      obtain ⟨n, rfl, hn⟩ := Primitive.admits_kind hk hadmits
      simp only [Ty.coerce, hk, Ty.coerceNumber, hn, if_true]
  | array element size => exact nomatch ht
  | vararg element => exact nomatch ht
  | _ => rfl

namespace Store

variable {declared : DataDecl → Prop} {σ : Store} {t : Ty} {v : Value}

/-- What fits is not converted. -/
theorem Fits.coerce (hσ : σ.Typed declared) (h : σ.Fits t v) : t.coerce σ v = .same := by
  induction t using Ty.element_induction generalizing v with
  | h t ih =>
    cases helement : t.element? with
    | some element =>
      obtain ⟨id, rfl⟩ := h.is_array helement
      have hfits := ((fits_array helement id).mp h).2
      rw [Ty.coerce_array helement, Ty.coerceElements]
      by_cases hany : element.acceptsAnything = true
      · rw [if_pos hany]
      · have htag : (σ.block id).element = element := hfits.resolve_left hany
        have heach : Coerced.each element.coerce σ (σ.elements id) =
            some (false, σ.elements id, σ) :=
          Coerced.each_same fun w hw =>
            ih element helement (htag ▸ (hσ.elements_have id w hw).fits)
        rw [if_neg hany, heach]
        simp only [Bool.false_or, htag, ne_eq, not_true_eq_false, decide_false,
          Bool.false_eq_true, if_false]
    | none => exact Ty.coerce_scalar_same helement ((Ty.check_scalar helement).mpr h)

/-- What fits belongs to the type. -/
theorem Fits.check (hσ : σ.Typed declared) (h : σ.Fits t v) : t.check σ v = .ok () := by
  induction t using Ty.element_induction generalizing v with
  | h t ih =>
    cases helement : t.element? with
    | some element =>
      obtain ⟨id, rfl⟩ := h.is_array helement
      obtain ⟨hsize, htag⟩ := (fits_array helement id).mp h
      refine (Ty.check_array helement σ id).mpr ⟨hsize, htag.imp_right fun htag w hw => ?_⟩
      exact ih element helement (htag ▸ (hσ.elements_have id w hw).fits)
    | none => exact (Ty.check_scalar helement).mpr h

/-- What fits passes its place as it is. -/
theorem Fits.conform (hσ : σ.Typed declared) (h : σ.Fits t v) :
    t.conform σ v = .ok (v, σ) := by
  simp only [Ty.conform, h.coerce hσ, Coerced.result?, h.check hσ]

end Store

end BasicScript
