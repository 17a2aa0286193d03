import BasicScript.Proofs.Types.Acceptance
import BasicScript.Proofs.Types.Storage

/-! # Assignment to cells

Fitting a value to a type looks at arrays, and never at cells. So whether a
cell takes a value does not depend on what other cells hold; a cell that takes
none is left as it was, and one that takes it is the only one that changes.
-/

namespace BasicScript

/-- Storage with the same arrays and other cells. -/
def Store.withCells (σ : Store) (cells : Array Cell) : Store := { σ with cells := cells }

/-- The same outcome in storage with other cells. -/
def Coerced.withCells (cells : Array Cell) : Coerced → Coerced
  | .changed w σ => .changed w (σ.withCells cells)
  | .same => .same
  | .failed => .failed

section CellsIgnored

variable {σ : Store} {cells : Array Cell} {t : Ty} {v : Value}

theorem Coerced.each_withCells {f : Store → Value → Coerced}
    (hf : ∀ σ v, f (σ.withCells cells) v = (f σ v).withCells cells) (σ : Store)
    (vs : List Value) : each f (σ.withCells cells) vs =
      (each f σ vs).map fun p => (p.1, p.2.1, p.2.2.withCells cells) := by
  induction vs generalizing σ with
  | nil => rfl
  | cons v vs ih =>
    simp only [each, hf]
    cases f σ v with
    | failed => rfl
    | same =>
      simp only [withCells, ih]
      cases each f σ vs <;> rfl
    | changed w σ₁ =>
      simp only [withCells, ih]
      cases each f σ₁ vs <;> rfl

theorem Ty.coerceElements_withCells {element : Ty} {f : Store → Value → Coerced}
    (hf : ∀ σ v, f (σ.withCells cells) v = (f σ v).withCells cells) (σ : Store) (id : ArrayId) :
    coerceElements element f (σ.withCells cells) id =
      (coerceElements element f σ id).withCells cells := by
  have hblock : (σ.withCells cells).block id = σ.block id := rfl
  have helements : (σ.withCells cells).elements id = σ.elements id := rfl
  unfold coerceElements
  rw [hblock, helements, Coerced.each_withCells hf]
  split
  · rfl
  · cases Coerced.each f σ (σ.elements id) with
    | none => rfl
    | some p =>
      simp only [Option.map_some]
      split <;> rfl

theorem Ty.coerce_withCells (t : Ty) (σ : Store) (v : Value) :
    t.coerce (σ.withCells cells) v = (t.coerce σ v).withCells cells := by
  induction t using element_induction generalizing σ v with
  | h t ih =>
    cases helement : t.element? with
    | some element =>
      by_cases hv : ∃ id, v = .array id
      · obtain ⟨id, rfl⟩ := hv
        rw [coerce_array helement, coerce_array helement,
          coerceElements_withCells (ih element helement)]
      · cases t with
        | array e size | vararg e =>
          cases v with
          | array id => exact absurd ⟨id, rfl⟩ hv
          | _ => rfl
        | _ => cases helement
    | none =>
      cases t with
      | prim p =>
        simp only [coerce]
        cases p.kind? with
        | none => rfl
        | some k =>
          simp only [coerceNumber]
          cases v with
          | number n =>
            simp only
            split
            · rfl
            · cases n.widen? k <;> rfl
          | char c => cases k <;> rfl
          | _ => rfl
      | array e size | vararg e => cases helement
      | _ => rfl

theorem Ty.check_withCells (t : Ty) (σ : Store) (v : Value) :
    t.check (σ.withCells cells) v = t.check σ v := by
  have helements : ∀ id, (σ.withCells cells).elements id = σ.elements id := fun _ => rfl
  induction t generalizing v with
  | array element size ih => cases v <;> simp only [check, helements, funext ih]
  | vararg element ih => cases v <;> simp only [check, helements, funext ih]
  | _ => cases v <;> rfl

/-- Fitting a value to a type does not depend on cells, and leaves them alone. -/
theorem Ty.conform_withCells (t : Ty) (σ : Store) (v : Value) :
    t.conform (σ.withCells cells) v =
      (t.conform σ v).map fun p => (p.1, p.2.withCells cells) := by
  unfold conform
  rw [coerce_withCells]
  cases t.coerce σ v with
  | failed => rfl
  | same =>
    simp only [Coerced.withCells, Coerced.result?, check_withCells]
    cases t.check σ v <;> rfl
  | changed w σ₁ =>
    simp only [Coerced.withCells, Coerced.result?, check_withCells]
    cases t.check σ₁ w <;> rfl

theorem Ty.accepts_withCells : t.Accepts (σ.withCells cells) v ↔ t.Accepts σ v := by
  unfold Accepts
  rw [conform_withCells]
  cases t.conform σ v with
  | error m => simp only [Except.map, reduceCtorEq]
  | ok p => exact ⟨fun _ => ⟨_, _, rfl⟩, fun _ => ⟨_, _, rfl⟩⟩

end CellsIgnored

/-- Whether a cell takes a value. -/
def Cell.Takes (c : Cell) (σ : Store) (v : Value) : Prop :=
  c.constant = false ∧ v.isMissing = false ∧ c.type.Accepts σ v

namespace Store

variable {σ σ' : Store} {v w : Value} {id other : CellId}

theorem cell_write (h : id.index < σ.cells.size) :
    (σ.write id v).cell id = { σ.cell id with value := v } := by
  unfold cell write
  rw [Array.getElem?_modify, if_pos rfl, Array.getElem?_eq_getElem h]
  rfl

theorem read_write (h : id.index < σ.cells.size) : (σ.write id v).read id = v := by
  rw [read, cell_write h]

/-- A cell keeps its type, and whether it is constant. -/
theorem cell_write_type (σ : Store) (id other : CellId) (v : Value) :
    ((σ.write id v).cell other).type = (σ.cell other).type ∧
      ((σ.write id v).cell other).constant = (σ.cell other).constant := by
  unfold cell write
  rw [Array.getElem?_modify]
  split
  · cases σ.cells[other.index]? <;> exact ⟨rfl, rfl⟩
  · exact ⟨rfl, rfl⟩

theorem cells_write_ne (h : other ≠ id) :
    (σ.write id v).cells[other.index]? = σ.cells[other.index]? := by
  unfold write
  rw [Array.getElem?_modify, if_neg]
  rintro hindex
  exact h (congrArg CellId.mk hindex.symm)

theorem cell_write_ne (h : other ≠ id) : (σ.write id v).cell other = σ.cell other := by
  rw [cell, cell, cells_write_ne h]

/-- A cell that is given its own value back. -/
theorem write_read (h : id.index < σ.cells.size) : (σ.write id v).write id (σ.read id) = σ := by
  have hcells : ((σ.write id v).write id (σ.read id)).cells = σ.cells := by
    refine Array.ext_getElem? fun i => ?_
    unfold write read cell
    simp only [Array.getElem?_modify]
    split
    · next hi =>
      subst hi
      simp only [Array.getElem?_eq_getElem h, Option.map_some, Option.getD_some]
    · rfl
  exact congrArg (fun cells => ({ σ with cells := cells } : Store)) hcells

theorem write_withCells (σ : Store) (id : CellId) (v : Value) :
    σ.write id v = σ.withCells (σ.write id v).cells := rfl

/-- Storage in which all is as before, apart from certain cells and certain arrays, and further
arrays may have come up. -/
structure Spares (σ σ' : Store) (cell : CellId → Prop) (array : ArrayId → Prop) : Prop where
  size : σ'.cells.size = σ.cells.size
  cells : ∀ id : CellId, ¬cell id → σ'.cells[id.index]? = σ.cells[id.index]?
  arrays : ∀ id : ArrayId, id.index < σ.arrays.size → ¬array id →
    σ'.arrays[id.index]? = σ.arrays[id.index]?

theorem Adds.spares (h : σ.Adds σ') (cell : CellId → Prop) (array : ArrayId → Prop) :
    σ.Spares σ' cell array where
  size := congrArg Array.size h.cells
  cells _ _ := by rw [h.cells]
  arrays _ hid _ := h.getElem? hid

theorem Spares.write {cell : CellId → Prop} {array : ArrayId → Prop}
    (h : σ.Spares σ' cell array) (hid : cell id) (v : Value) :
    σ.Spares (σ'.write id v) cell array where
  size := (Array.size_modify ..).trans h.size
  cells other hother := by
    have hne : other ≠ id := by
      rintro rfl
      exact hother hid
    rw [cells_write_ne hne]
    exact h.cells other hother
  arrays := h.arrays

end Store

/-- A visible variable has a cell. -/
theorem State.Typed.visible {s : State} (hs : s.Typed) {name : String} {id : CellId}
    (h : s.env.cell? name = some id) : id.index < s.store.cells.size := by
  obtain ⟨i, sc, hsc, hmem⟩ := Environment.cell?_some h
  exact hs.bound i sc hsc _ hmem

/-- A cell without a value resembles a result slot. -/
theorem State.Typed.slot_of_missing {s : State} (hs : s.Typed) {id : CellId}
    (hid : id.index < s.store.cells.size) (h : s.store.read id = .empty) :
    s.ResemblesResultSlot id := by
  have hcell := Array.getElem?_eq_getElem hid
  refine hs.slots id.index _ hcell ?_
  have hread : s.store.read id = s.store.cells[id.index].value := by
    unfold Store.read Store.cell
    rw [hcell, Option.getD_some]
  rw [← hread, h]
  rfl

namespace Run

variable {s : State} {id : CellId} {name : String} {v : Value}

theorem cellOf_ok (h : s.env.cell? name = some id) : Run.cellOf name s = .ok id s := by
  show Run.require _ (s.env.cell? name) s = _
  rw [h]
  rfl

/-- A cell that takes a value is overwritten with what the value has been converted to. -/
theorem assign_taken (name : String) (h : (s.store.cell id).Takes s.store v) : ∃ w σ,
    (s.store.cell id).type.conform s.store v = .ok (w, σ) ∧
      Run.assign id name v s = .ok w { s with store := σ.write id w } := by
  obtain ⟨hconstant, hpresent, w, σ, hconform⟩ := h
  have hfit : Run.conform (s.store.cell id).type v s = .ok w { s with store := σ } := by
    simp only [Run.conform, Run.fit, hconform]
  exact ⟨w, σ, hconform, (assign_eq name hconstant hpresent).trans (bind_ok hfit _)⟩

/-- A cell that does not take a value is left as it was, and so is everything else. -/
theorem assign_untaken (name : String) (h : ¬(s.store.cell id).Takes s.store v) :
    ∃ f, Run.assign id name v s = .error (.error (.ofFault f)) s := by
  rcases assign_cases id name v s with ⟨w, σ, hconstant, hpresent, hconform, -⟩ | hfailed
  · exact absurd ⟨hconstant, hpresent, w, σ, hconform⟩ h
  · exact hfailed

end Run

end BasicScript
