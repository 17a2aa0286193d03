import Mathlib.Data.List.Nodup
import BasicScript.Proofs.Stores.Assignment

/-! # What a value takes up

The storage behind a value is listed once for every position in it. Where a
handle is listed twice, a store at one position shows at another; where none is
listed twice, and none was there before, the value is nobody's but its own.
-/

namespace BasicScript

/-- A piece of storage. -/
inductive Handle where
  | array (id : ArrayId)
  | cell (id : CellId)
  deriving DecidableEq

/-- Whether the storage is there. -/
def Handle.In (σ : Store) : Handle → Prop
  | .array id => id.index < σ.arrays.size
  | .cell id => id.index < σ.cells.size

/-- The storage holds the same in two stores. -/
def Handle.Same (σ τ : Store) : Handle → Prop
  | .array id => τ.block id = σ.block id
  | .cell id => τ.cell id = σ.cell id

/-- What a value shows down to some depth, arrays and composites being unfolded. -/
inductive View where
  | leaf (value : Value)
  /-- What is too deep to be looked into. -/
  | cut
  | array (element : Ty) (parts : List View)
  | data (decl : DataDecl) (parts : List View)
  | entry (enum name : String) (ordinal : ℕ) (part : View)

namespace Store

/-- The view of a value. -/
def view (σ : Store) : ℕ → Value → View
  | depth + 1, .array id => .array (σ.block id).element ((σ.elements id).map (σ.view depth))
  | depth + 1, .data decl cells => .data decl (cells.map fun id => σ.view depth (σ.read id))
  | depth + 1, .entry enum name ordinal v => .entry enum name ordinal (σ.view depth v)
  | 0, .array _ | 0, .data .. | 0, .entry .. => .cut
  | _, v => .leaf v

/-- The storage that a value takes up down to some depth, once for every position. -/
def footprint (σ : Store) : ℕ → Value → List Handle
  | depth + 1, .array id => .array id :: (σ.elements id).flatMap (σ.footprint depth)
  | depth + 1, .data _ cells =>
    cells.flatMap fun id => .cell id :: σ.footprint depth (σ.read id)
  | depth + 1, .entry _ _ _ v => σ.footprint depth v
  | _, _ => []

/-- One store goes on where another ends: what there was is as it was. -/
structure Prolongs (σ τ : Store) : Prop where
  cells : ∀ i < σ.cells.size, τ.cells[i]? = σ.cells[i]?
  arrays : ∀ i < σ.arrays.size, τ.arrays[i]? = σ.arrays[i]?

/-- The elements of an array, or what the fields of a composite hold. -/
def parts (σ : Store) : Value → List Value
  | .array id => σ.elements id
  | .data _ cells => cells.map σ.read
  | _ => []

/-- A value with the type of its place, inside another value with the type of its place. -/
inductive Position (σ : Store) : Ty → Value → Ty → Value → Prop where
  | self (t : Ty) (v : Value) : Position σ t v t v
  | element {t t' : Ty} {id : ArrayId} {u w : Value} : u ∈ σ.elements id →
      Position σ (σ.block id).element u t' w → Position σ t (.array id) t' w
  | field {t t' : Ty} {decl : DataDecl} {cells : List CellId} {id : CellId} {w : Value} :
      id ∈ cells → Position σ (σ.cell id).type (σ.read id) t' w →
      Position σ t (.data decl cells) t' w

/-- The value at a piece of storage is exchanged for another: an element of an array, or what a cell
holds. -/
inductive StoresAt (σ : Store) : Handle → Store → Prop where
  | element (id : ArrayId) (i : ℕ) (v : Value) : StoresAt σ (.array id) (σ.setElement id i v)
  | cell (id : CellId) (v : Value) : StoresAt σ (.cell id) (σ.write id v)

/-- A store into a part of a value: into its place, or into storage that it takes up. -/
inductive StoresIn (σ : Store) (i : ℕ) : Value → Store → Prop where
  | element (id : ArrayId) (v : Value) : StoresIn σ i (.array id) (σ.setElement id i v)
  | field {cells : List CellId} {id : CellId} (decl : DataDecl) (v : Value) :
      cells[i]? = some id → StoresIn σ i (.data decl cells) (σ.write id v)
  | inside {w part : Value} {depth : ℕ} {h : Handle} {τ : Store} : (σ.parts w)[i]? = some part →
      h ∈ σ.footprint depth part → σ.StoresAt h τ → StoresIn σ i w τ

variable {σ τ υ : Store} {v w : Value} {vs : List Value} {h : Handle} {depth : ℕ}

theorem agree_of_same (hsame : ∀ h ∈ σ.footprint depth v, h.Same σ τ) :
    τ.footprint depth v = σ.footprint depth v ∧ τ.view depth v = σ.view depth v := by
  induction depth generalizing v with
  | zero => cases v <;> exact ⟨rfl, rfl⟩
  | succ depth ih =>
    cases v with
    | array id =>
      simp only [footprint, List.forall_mem_cons, List.mem_flatMap] at hsame
      have hblock : τ.block id = σ.block id := hsame.1
      have helements : τ.elements id = σ.elements id := by simp only [elements, hblock]
      have hparts : ∀ u ∈ σ.elements id, _ := fun u hu =>
        ih fun h hh => hsame.2 h ⟨u, hu, hh⟩
      simp only [footprint, view, hblock, helements]
      constructor
      · rw [List.flatMap_congr fun u hu => (hparts u hu).1]
      · rw [List.map_congr_left fun u hu => (hparts u hu).2]
    | data decl cells =>
      simp only [footprint, List.mem_flatMap] at hsame
      have hparts : ∀ id ∈ cells, τ.read id = σ.read id ∧
          τ.footprint depth (σ.read id) = σ.footprint depth (σ.read id) ∧
            τ.view depth (σ.read id) = σ.view depth (σ.read id) := by
        intro id hid
        have hcell : τ.cell id = σ.cell id := hsame _ ⟨id, hid, List.mem_cons_self⟩
        refine ⟨by simp only [read, hcell], ih fun h hh => ?_⟩
        exact hsame h ⟨id, hid, List.mem_cons_of_mem _ hh⟩
      simp only [footprint, view]
      constructor
      · refine List.flatMap_congr fun id hid => ?_
        rw [(hparts id hid).1, (hparts id hid).2.1]
      · congr 1
        refine List.map_congr_left fun id hid => ?_
        rw [(hparts id hid).1, (hparts id hid).2.2]
    | entry enum name ordinal v =>
      obtain ⟨hfootprint, hview⟩ := ih (v := v) hsame
      simp only [footprint, view, hfootprint, hview, and_self]
    | _ => exact ⟨rfl, rfl⟩

/-- A store changes nothing but what it stores into. -/
theorem StoresAt.same (hstore : σ.StoresAt h τ) {other : Handle} (hne : other ≠ h) :
    other.Same σ τ := by
  cases hstore with
  | element id i v =>
    cases other with
    | cell other => rfl
    | array other =>
      have hindex : id.index ≠ other.index := fun heq =>
        hne (congrArg Handle.array (congrArg ArrayId.mk heq.symm))
      simp [Handle.Same, block, setElement, Array.getElem?_modify, hindex]
  | cell id v =>
    cases other with
    | array other => rfl
    | cell other => exact cell_write_ne fun heq => hne (congrArg Handle.cell heq)

/-- What does not take up the storage does not show the store. -/
theorem StoresAt.view (hstore : σ.StoresAt h τ) (hfree : h ∉ σ.footprint depth v) :
    τ.view depth v = σ.view depth v := by
  refine (agree_of_same fun other hother => hstore.same ?_).2
  rintro rfl
  exact hfree hother

namespace Prolongs

theorem refl (σ : Store) : σ.Prolongs σ := ⟨fun _ _ => rfl, fun _ _ => rfl⟩

theorem cells_le (h : σ.Prolongs τ) : σ.cells.size ≤ τ.cells.size := by
  by_contra hlt
  have hsome := h.cells τ.cells.size (by omega)
  rw [Array.getElem?_eq_none (Nat.le_refl _), eq_comm, Array.getElem?_eq_none_iff] at hsome
  omega

theorem arrays_le (h : σ.Prolongs τ) : σ.arrays.size ≤ τ.arrays.size := by
  by_contra hlt
  have hsome := h.arrays τ.arrays.size (by omega)
  rw [Array.getElem?_eq_none (Nat.le_refl _), eq_comm, Array.getElem?_eq_none_iff] at hsome
  omega

theorem mem (h : σ.Prolongs τ) {handle : Handle} (hin : handle.In σ) : handle.In τ := by
  cases handle with
  | array id => exact Nat.lt_of_lt_of_le hin h.arrays_le
  | cell id => exact Nat.lt_of_lt_of_le hin h.cells_le

theorem trans (h : σ.Prolongs τ) (h' : τ.Prolongs υ) : σ.Prolongs υ where
  cells i hi := (h'.cells i (Nat.lt_of_lt_of_le hi h.cells_le)).trans (h.cells i hi)
  arrays i hi := (h'.arrays i (Nat.lt_of_lt_of_le hi h.arrays_le)).trans (h.arrays i hi)

theorem newArray (σ : Store) (element : Ty) (vs : List Value) :
    σ.Prolongs (σ.newArray element vs).2 where
  cells _ _ := rfl
  arrays i hi := by simp [Store.newArray, Array.getElem?_push, hi.ne]

theorem newCell (σ : Store) (c : Cell) : σ.Prolongs (σ.newCell c).2 where
  cells i hi := by simp [Store.newCell, Array.getElem?_push, hi.ne]
  arrays _ _ := rfl

theorem same (h : σ.Prolongs τ) {handle : Handle} (hin : handle.In σ) : handle.Same σ τ := by
  cases handle with
  | array id => simp only [Handle.Same, block, h.arrays _ hin]
  | cell id => simp only [Handle.Same, cell, h.cells _ hin]

/-- What takes up storage that there was takes up the same now. -/
theorem footprint (h : σ.Prolongs τ) (hin : ∀ handle ∈ σ.footprint depth v, handle.In σ) :
    τ.footprint depth v = σ.footprint depth v :=
  (agree_of_same fun handle hmem => h.same (hin handle hmem)).1

end Prolongs

/-- Storage that has come up from one store to another and is listed only once. -/
def Sprung (σ τ : Store) (handles : List Handle) : Prop :=
  handles.Nodup ∧ ∀ h ∈ handles, h.In τ ∧ ¬h.In σ

namespace Sprung

variable {handles others : List Handle}

theorem nil (σ τ : Store) : Sprung σ τ [] := ⟨.nil, List.forall_mem_nil _⟩

theorem append (h : Sprung σ τ handles) (h' : Sprung τ υ others) (hστ : σ.Prolongs τ)
    (hτυ : τ.Prolongs υ) : Sprung σ υ (handles ++ others) := by
  constructor
  · refine List.nodup_append.mpr ⟨h.1, h'.1, ?_⟩
    rintro a ha b hb rfl
    exact (h'.2 a hb).2 (h.2 a ha).1
  · intro a ha
    rcases List.mem_append.mp ha with ha | ha
    · exact ⟨hτυ.mem (h.2 a ha).1, (h.2 a ha).2⟩
    · exact ⟨(h'.2 a ha).1, fun hin => (h'.2 a ha).2 (hστ.mem hin)⟩

end Sprung

/-- All that the value takes up has come up from one store to another, and no two of its positions
share storage. -/
def Fresh (σ τ : Store) (v : Value) : Prop := ∀ depth, Sprung σ τ (τ.footprint depth v)

/-- So it is for several values, and across them. -/
def AllFresh (σ τ : Store) (vs : List Value) : Prop :=
  ∀ depth, Sprung σ τ (vs.flatMap (τ.footprint depth))

/-- So it is for the fields with the cells. -/
def FreshCells (σ τ : Store) (cells : List CellId) : Prop :=
  ∀ depth, Sprung σ τ (cells.flatMap fun id => .cell id :: τ.footprint depth (τ.read id))

/-- A value that takes up no storage. -/
theorem Fresh.scalar (σ τ : Store) (hv : ∀ depth, τ.footprint depth v = []) : σ.Fresh τ v := by
  intro depth
  rw [hv]
  exact .nil σ τ

theorem AllFresh.nil (σ τ : Store) : σ.AllFresh τ [] := fun _ => .nil σ τ

theorem AllFresh.cons (h : σ.Fresh τ v) (h' : τ.AllFresh υ vs) (hστ : σ.Prolongs τ)
    (hτυ : τ.Prolongs υ) : σ.AllFresh υ (v :: vs) := by
  intro depth
  rw [List.flatMap_cons, hτυ.footprint fun handle hmem => ((h depth).2 handle hmem).1]
  exact (h depth).append (h' depth) hστ hτυ

/-- A new array of fresh values. -/
theorem Fresh.newArray (h : σ.AllFresh τ vs) (hστ : σ.Prolongs τ) (element : Ty) :
    σ.Fresh (τ.newArray element vs).2 (.array (τ.newArray element vs).1) := by
  have hnew := Prolongs.newArray τ element vs
  intro depth
  cases depth with
  | zero => exact .nil _ _
  | succ depth =>
    have helements : (τ.newArray element vs).2.elements (τ.newArray element vs).1 = vs := by
      simp [Store.newArray, elements, block]
    have hparts : vs.flatMap ((τ.newArray element vs).2.footprint depth) =
        vs.flatMap (τ.footprint depth) := by
      refine List.flatMap_congr fun v hv => hnew.footprint fun handle hmem => ?_
      exact ((h depth).2 handle (List.mem_flatMap.mpr ⟨v, hv, hmem⟩)).1
    have hfree : ¬(Handle.array (τ.newArray element vs).1).In τ := Nat.lt_irrefl _
    simp only [footprint, helements, hparts]
    constructor
    · exact List.nodup_cons.mpr ⟨fun hmem => hfree ((h depth).2 _ hmem).1, (h depth).1⟩
    · refine List.forall_mem_cons.mpr ⟨⟨?_, fun hin => hfree (hστ.mem hin)⟩, ?_⟩
      · simp [Handle.In, Store.newArray]
      · exact fun handle hmem => ⟨hnew.mem ((h depth).2 handle hmem).1,
          ((h depth).2 handle hmem).2⟩

theorem FreshCells.nil (σ τ : Store) : σ.FreshCells τ [] := fun _ => .nil σ τ

/-- A new cell that holds a fresh value, and those that come after it. -/
theorem FreshCells.cons {c : Cell} {cells : List CellId} (h : σ.Fresh τ c.value)
    (h' : (τ.newCell c).2.FreshCells υ cells) (hστ : σ.Prolongs τ)
    (hτυ : (τ.newCell c).2.Prolongs υ) : σ.FreshCells υ ((τ.newCell c).1 :: cells) := by
  have hnew := Prolongs.newCell τ c
  have hin : (Handle.cell (τ.newCell c).1).In (τ.newCell c).2 := by
    simp [Handle.In, Store.newCell]
  have hfree : ¬(Handle.cell (τ.newCell c).1).In τ := Nat.lt_irrefl _
  have hread : υ.read (τ.newCell c).1 = c.value := by
    have hcell : υ.cell (τ.newCell c).1 = (τ.newCell c).2.cell (τ.newCell c).1 := hτυ.same hin
    rw [read, hcell]
    simp [Store.newCell, cell]
  intro depth
  have hparts : υ.footprint depth c.value = τ.footprint depth c.value :=
    (hnew.trans hτυ).footprint fun handle hmem => ((h depth).2 handle hmem).1
  rw [List.flatMap_cons, hread, hparts]
  refine Sprung.append (τ := (τ.newCell c).2) ?_ (h' depth) (hστ.trans hnew) hτυ
  constructor
  · exact List.nodup_cons.mpr ⟨fun hmem => hfree ((h depth).2 _ hmem).1, (h depth).1⟩
  · refine List.forall_mem_cons.mpr ⟨⟨hin, fun hin => hfree (hστ.mem hin)⟩, ?_⟩
    exact fun handle hmem => ⟨hnew.mem ((h depth).2 handle hmem).1, ((h depth).2 handle hmem).2⟩

/-- A composite with fresh cells. -/
theorem FreshCells.data {cells : List CellId} (h : σ.FreshCells τ cells) (decl : DataDecl) :
    σ.Fresh τ (.data decl cells) := by
  intro depth
  cases depth with
  | zero => exact .nil σ τ
  | succ depth => exact h depth

/-- The storage that a value takes up, and what there is more of it deeper down. -/
theorem footprint_succ (σ : Store) (depth : ℕ) (v : Value) :
    σ.footprint depth v ⊆ σ.footprint (depth + 1) v := by
  induction depth generalizing v with
  | zero => cases v <;> exact List.nil_subset _
  | succ depth ih =>
    cases v with
    | array id =>
      rw [footprint, footprint]
      refine List.cons_subset_cons _ fun h hmem => ?_
      obtain ⟨u, hu, hh⟩ := List.mem_flatMap.mp hmem
      exact List.mem_flatMap.mpr ⟨u, hu, ih u hh⟩
    | data decl cells =>
      intro h hmem
      rw [footprint, List.mem_flatMap] at hmem ⊢
      obtain ⟨id, hid, hh⟩ := hmem
      exact ⟨id, hid, List.cons_subset_cons _ (ih (σ.read id)) hh⟩
    | entry enum name ordinal v => exact ih v
    | _ => exact List.nil_subset _

theorem footprint_mono (σ : Store) (v : Value) {d e : ℕ} (hle : d ≤ e) :
    σ.footprint d v ⊆ σ.footprint e v := by
  induction hle with
  | refl => exact List.Subset.refl _
  | step _ ih => exact List.Subset.trans ih (footprint_succ σ _ v)

/-- The storage of a part is listed with that of the value. -/
theorem footprint_part (σ : Store) (depth : ℕ) (v : Value) :
    ((σ.parts v).flatMap (σ.footprint depth)).Sublist (σ.footprint (depth + 1) v) := by
  cases v with
  | array id => exact List.sublist_cons_self _ _
  | data decl cells =>
    rw [parts, footprint, List.flatMap_map]
    induction cells with
    | nil => exact List.Sublist.refl _
    | cons id cells ih =>
      rw [List.flatMap_cons, List.flatMap_cons]
      exact (List.sublist_cons_self _ _).append ih
  | entry enum name ordinal v => exact List.nil_sublist _
  | _ => exact List.nil_sublist _

theorem Sprung.sublist {handles others : List Handle} (h : Sprung σ τ handles)
    (hsub : others.Sublist handles) : Sprung σ τ others :=
  ⟨h.1.sublist hsub, fun a ha => h.2 a (hsub.subset ha)⟩

namespace Fresh

variable {t t' : Ty} {a b : Value} {i j : ℕ}

theorem part (h : σ.Fresh τ v) (hw : w ∈ τ.parts v) : σ.Fresh τ w := by
  intro depth
  refine (h (depth + 1)).sublist (.trans ?_ (footprint_part τ depth v))
  obtain ⟨before, after, hparts⟩ := List.append_of_mem hw
  rw [hparts, List.flatMap_append, List.flatMap_cons]
  exact (List.sublist_append_left _ _).trans (List.sublist_append_right _ _)

/-- What is inside of a fresh value is fresh. -/
theorem position (h : σ.Fresh τ v) (hpos : τ.Position t v t' w) : σ.Fresh τ w := by
  induction hpos with
  | self => exact h
  | element hu _ ih => exact ih (h.part hu)
  | field hid _ ih => exact ih (h.part (List.mem_map_of_mem hid))

/-- Two parts of a fresh value have no storage in common. -/
theorem apart (h : σ.Fresh τ v) (ha : (τ.parts v)[i]? = some a) (hb : (τ.parts v)[j]? = some b)
    (hij : i ≠ j) {d e : ℕ} {handle : Handle} (hmem : handle ∈ τ.footprint d a) :
    handle ∉ τ.footprint e b := by
  intro hmem'
  have hdepth := ((h (max d e + 1)).sublist (footprint_part τ (max d e) v)).1
  rw [List.nodup_flatMap] at hdepth
  have hpair := List.pairwise_iff_getElem.mp hdepth.2
  obtain ⟨hi, rfl⟩ := List.getElem?_eq_some_iff.mp ha
  obtain ⟨hj, rfl⟩ := List.getElem?_eq_some_iff.mp hb
  have hleft := footprint_mono τ _ (Nat.le_max_left d e) hmem
  have hright := footprint_mono τ _ (Nat.le_max_right d e) hmem'
  rcases Nat.lt_or_gt_of_ne hij with hlt | hgt
  · exact hpair i j hi hj hlt hleft hright
  · exact hpair j i hj hi hgt hright hleft

/-- The cells of two fields of a fresh composite have nothing in common, nor have their contents. -/
theorem cells_apart {decl : DataDecl} {cells : List CellId} {c d : CellId}
    (h : σ.Fresh τ (.data decl cells)) (hc : cells[i]? = some c) (hd : cells[j]? = some d)
    (hij : i ≠ j) (depth : ℕ) :
    List.Disjoint (.cell c :: τ.footprint depth (τ.read c))
      (.cell d :: τ.footprint depth (τ.read d)) := by
  have hnodup := (h (depth + 1)).1
  rw [footprint, List.nodup_flatMap] at hnodup
  have hpair := List.pairwise_iff_getElem.mp hnodup.2
  obtain ⟨hi, rfl⟩ := List.getElem?_eq_some_iff.mp hc
  obtain ⟨hj, rfl⟩ := List.getElem?_eq_some_iff.mp hd
  rcases Nat.lt_or_gt_of_ne hij with hlt | hgt
  · exact hpair i j hi hj hlt
  · exact fun _ hleft hright => hpair j i hj hi hgt hright hleft

/-- An array is not among the storage of its elements. -/
theorem array_apart {id : ArrayId} (h : σ.Fresh τ (.array id)) (hw : w ∈ τ.elements id) :
    .array id ∉ τ.footprint depth w := by
  have hnodup := (h (depth + 1)).1
  rw [footprint, List.nodup_cons] at hnodup
  exact fun hmem => hnodup.1 (List.mem_flatMap.mpr ⟨w, hw, hmem⟩)

/-- A store into one part of a fresh value does not show through another. -/
theorem parts_storesIn (h : σ.Fresh τ v) (hstore : τ.StoresIn i v υ) (hij : i ≠ j)
    (hb : (τ.parts v)[j]? = some b) :
    (υ.parts v)[j]? = some b ∧ ∀ depth, υ.view depth b = τ.view depth b := by
  cases hstore with
  | element id x =>
    have hmem : b ∈ τ.elements id := List.mem_of_getElem? hb
    constructor
    · have hset : (τ.setElement id i x).elements id = (τ.elements id).set i x := by
        simp only [elements, block, setElement, Array.getElem?_modify, if_true]
        cases τ.arrays[id.index]? <;> simp
      show ((τ.setElement id i x).elements id)[j]? = some b
      rw [hset, List.getElem?_set_ne hij]
      exact hb
    · exact fun depth => (StoresAt.element id i x).view (h.array_apart hmem)
  | @field cells c decl x hc =>
    simp only [parts, List.getElem?_map, Option.map_eq_some_iff] at hb
    obtain ⟨d, hd, rfl⟩ := hb
    constructor
    · have hne : d ≠ c := by
        rintro rfl
        exact h.cells_apart hc hd hij 0 List.mem_cons_self List.mem_cons_self
      simp only [parts, List.getElem?_map, hd, Option.map_some, read, cell_write_ne hne]
    · refine fun depth => (StoresAt.cell c x).view fun hmem => ?_
      exact h.cells_apart hc hd hij depth List.mem_cons_self (List.mem_cons_of_mem _ hmem)
  | @inside _ a depth handle _ ha hmem hat =>
    refine ⟨?_, fun depth' => hat.view (h.apart ha hb hij hmem)⟩
    cases v with
    | array id =>
      have hne : Handle.array id ≠ handle := by
        rintro rfl
        exact h.array_apart (List.mem_of_getElem? ha) hmem
      have hblock : υ.block id = τ.block id := hat.same hne
      simpa only [parts, elements, hblock] using hb
    | data decl cells =>
      simp only [parts, List.getElem?_map, Option.map_eq_some_iff] at ha hb ⊢
      obtain ⟨c, hc, rfl⟩ := ha
      obtain ⟨d, hd, rfl⟩ := hb
      have hne : Handle.cell d ≠ handle := by
        rintro rfl
        exact h.cells_apart hc hd hij depth (List.mem_cons_of_mem _ hmem) List.mem_cons_self
      have hcell : υ.cell d = τ.cell d := hat.same hne
      exact ⟨d, hd, by simp only [read, hcell]⟩
    | _ => simp [parts] at ha

/-- A store into a part of a fresh value is one into storage that was not there before. -/
theorem storesAt_new (h : σ.Fresh τ v) (hstore : τ.StoresIn i v υ) :
    ∃ handle : Handle, ¬handle.In σ ∧ τ.StoresAt handle υ := by
  cases hstore with
  | element id x => exact ⟨_, ((h 1).2 _ List.mem_cons_self).2, .element id i x⟩
  | @field cells c decl x hc =>
    refine ⟨_, ((h 1).2 (.cell c) ?_).2, .cell c x⟩
    exact List.mem_flatMap.mpr ⟨c, List.mem_of_getElem? hc, List.mem_cons_self⟩
  | @inside _ a depth handle _ ha hmem hat =>
    exact ⟨handle, ((h.part (List.mem_of_getElem? ha) depth).2 handle hmem).2, hat⟩

/-- A store into a part of a fresh value does not show through what was there before. -/
theorem cell_storesIn (h : σ.Fresh τ v) (hστ : σ.Prolongs τ) (hstore : τ.StoresIn i v υ)
    {id : CellId} (hid : id.index < σ.cells.size)
    (hclosed : ∀ handle ∈ σ.footprint depth (σ.read id), handle.In σ) :
    υ.view depth (υ.read id) = σ.view depth (σ.read id) := by
  obtain ⟨new, hnew, hat⟩ := h.storesAt_new hstore
  have hsame : ∀ handle : Handle, handle.In σ → handle.Same σ υ := by
    intro handle hin
    have hne : handle ≠ new := by
      rintro rfl
      exact hnew hin
    have hfirst := hστ.same hin
    have hsecond := hat.same hne
    cases handle with
    | array id => exact hsecond.trans hfirst
    | cell id => exact hsecond.trans hfirst
  have hcell : υ.cell id = σ.cell id := hsame (.cell id) hid
  rw [read, hcell]
  exact (agree_of_same fun handle hmem => hsame handle (hclosed handle hmem)).2

end Fresh

/-- A cell of a composite is that of one of its fields. -/
theorem IsField.of_mem {fields : List Field} {cells : List CellId} {id : CellId}
    (h : List.Forall₂ σ.IsField fields cells) (hid : id ∈ cells) :
    ∃ field ∈ fields, σ.IsField field id := by
  induction h with
  | nil => exact nomatch hid
  | cons hfirst _ ih =>
    rcases List.mem_cons.mp hid with rfl | hid
    · exact ⟨_, List.mem_cons_self, hfirst⟩
    · obtain ⟨field, hmem, hfield⟩ := ih hid
      exact ⟨field, List.mem_cons_of_mem _ hmem, hfield⟩

/-- In a typed store the storage of a value is there. -/
theorem Holds.footprint_in {declared : DataDecl → Prop} (hσ : σ.Typed declared)
    (hv : σ.Holds declared v) : ∀ h ∈ σ.footprint depth v, h.In σ := by
  induction depth generalizing v with
  | zero => cases v <;> exact List.forall_mem_nil _
  | succ depth ih =>
    cases v with
    | array id =>
      refine List.forall_mem_cons.mpr ⟨hv, fun h hmem => ?_⟩
      obtain ⟨u, hu, hh⟩ := List.mem_flatMap.mp hmem
      exact ih (hσ.elements_have id u hu).holds h hh
    | data decl cells =>
      intro h hmem
      obtain ⟨id, hid, hh⟩ := List.mem_flatMap.mp hmem
      rcases List.mem_cons.mp hh with rfl | hh
      · obtain ⟨field, -, hfield⟩ := IsField.of_mem hv.2 hid
        exact hfield.bound
      · exact ih (hσ.cell_holds id) h hh
    | entry enum name ordinal v => exact ih hv
    | _ => exact List.forall_mem_nil _

end Store

end BasicScript
