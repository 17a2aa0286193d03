import Mathlib.Data.Finset.Prod
import Mathlib.Order.Monotone.Basic
import Mathlib.Tactic.Linarith
import BasicScript.Proofs.Values.Cycles

/-! # Depth of views

A view follows handles no further than the size of the store. Nothing is lost
by that: with more depth it gives the same answer, or none again. What it finds
one handle deeper is read off from what it has found at the places of the
store, so it has seen all there is once no place gets an answer any more.
-/

namespace BasicScript

namespace Store

section Settling

variable {κ β : Type} {view : ℕ → κ → Option β} {places : Finset κ}

/-- The places at which a view has an answer. -/
def answered (view : ℕ → κ → Option β) (places : Finset κ) (depth : ℕ) : Finset κ :=
  places.filter fun k => (view depth k).isSome = true

variable (hsucc : ∀ n k answer, view n k = some answer → view (n + 1) k = some answer)

include hsucc

theorem view_mono {m n : ℕ} (hmn : m ≤ n) {k : κ} {answer : β} (h : view m k = some answer) :
    view n k = some answer := by
  induction n, hmn using Nat.le_induction with
  | base => exact h
  | succ n _ ih => exact hsucc n k answer ih

theorem answered_mono : Monotone (answered view places) := by
  intro m n hmn k hk
  obtain ⟨hplace, hsome⟩ := Finset.mem_filter.mp hk
  obtain ⟨answer, hanswer⟩ := Option.isSome_iff_exists.mp hsome
  exact Finset.mem_filter.mpr ⟨hplace, by rw [view_mono hsucc hmn hanswer]; rfl⟩

variable (hplaces : ∀ k ∉ places, ∀ m n, view m k = view n k)

include hplaces

/-- A view that has answers at no more places than before is as it was. -/
theorem view_eq_of_card {m n : ℕ} (hmn : m ≤ n)
    (hcard : (answered view places m).card = (answered view places n).card) :
    view m = view n := by
  have heq : answered view places m = answered view places n :=
    Finset.eq_of_subset_of_card_le (answered_mono hsucc hmn) hcard.ge
  funext k
  by_cases hplace : k ∈ places
  · cases hm : view m k with
    | some answer => exact (view_mono hsucc hmn hm).symm
    | none =>
      have hnot : k ∉ answered view places n := by
        rw [← heq]
        simp [answered, hm]
      have hnone : (view n k).isSome ≠ true := fun h => hnot (Finset.mem_filter.mpr ⟨hplace, h⟩)
      exact (Option.not_isSome_iff_eq_none.mp hnone).symm
  · exact hplaces k hplace m n

/-- A view that finds nothing new outside of some places, and goes on alike from answers that are
alike there, finds nothing more after as many steps as there are places. -/
theorem view_settles (hnext : ∀ m n, view m = view n → view (m + 1) = view (n + 1)) {m n : ℕ}
    (hm : places.card ≤ m) (hn : places.card ≤ n) : view m = view n := by
  have hmono : Monotone fun m => (answered view places m).card :=
    fun _ _ hmn => Finset.card_le_card (answered_mono hsucc hmn)
  have hbound : ∀ m, (answered view places m).card ≤ places.card :=
    fun _ => Finset.card_filter_le _ _
  have hstable : ∀ m, (answered view places m).card = (answered view places (m + 1)).card →
      (answered view places (m + 1)).card = (answered view places (m + 2)).card := by
    intro m hm
    have hagain := hnext m (m + 1) (view_eq_of_card hsucc hplaces (Nat.le_succ m) hm)
    rw [answered, answered, hagain]
  have hlast : ∀ {n}, places.card ≤ n → view places.card = view n := fun hn =>
    view_eq_of_card hsucc hplaces hn (Nat.stabilises_of_monotone hmono hbound hstable hn).symm
  exact (hlast hm).symm.trans (hlast hn)

end Settling

variable {σ : Store} {v w : Value}

/-- A text has an end just where some depth is enough for it. -/
theorem text?_eq_none_iff : σ.text? v = none ↔ ∀ depth, σ.textWithin depth v = none := by
  refine ⟨fun h depth => ?_, fun h => h σ.depth⟩
  have hcycle : ¬σ.Acyclic v := by
    rw [← textEnds_iff, textEnds, h]
    exact Bool.false_ne_true
  exact Option.not_isSome_iff_eq_none.mp fun hsome => hcycle (acyclic_of_textWithin hsome)

theorem allM_mono {α : Type} {f g : α → Option Bool} {as : List α}
    (h : ∀ a answer, f a = some answer → g a = some answer) {answer : Bool}
    (hf : as.allM f = some answer) : as.allM g = some answer := by
  induction as with
  | nil => exact hf
  | cons a as ih =>
    rw [List.allM_cons] at hf ⊢
    obtain ⟨first, hfirst, hrest⟩ := Option.bind_eq_some_iff.mp hf
    rw [h a first hfirst]
    cases first with
    | true => exact ih hrest
    | false => exact hrest

section Emptiness

variable {d : DataDecl} {cells : List CellId} {depth : ℕ}

/-- Whether what a cell holds counts as empty. -/
def emptyAt (σ : Store) (depth : ℕ) (c : CellId) : Option Bool := σ.isEmptyWithin depth (σ.read c)

theorem isEmptyWithin_data (h : payload v = .data d cells) :
    σ.isEmptyWithin (depth + 1) v = cells.allM (σ.emptyAt depth) := by
  unfold isEmptyWithin
  rw [h]
  rfl

/-- Only into the fields of a composite a view of emptiness goes on. -/
theorem isEmptyWithin_flat (h : ∀ d cells, payload v ≠ .data d cells) (m n : ℕ) :
    σ.isEmptyWithin m v = σ.isEmptyWithin n v := by
  unfold isEmptyWithin
  cases hv : payload v with
  | data d cells => exact absurd hv (h d cells)
  | _ => rfl

theorem isEmptyWithin_succ {answer : Bool} (h : σ.isEmptyWithin depth v = some answer) :
    σ.isEmptyWithin (depth + 1) v = some answer := by
  induction depth generalizing v answer with
  | zero =>
    by_cases hdata : ∃ d cells, payload v = .data d cells
    · obtain ⟨d, cells, hv⟩ := hdata
      unfold isEmptyWithin at h
      simp [hv] at h
    · push Not at hdata
      rwa [isEmptyWithin_flat hdata 1 0]
  | succ depth ih =>
    by_cases hdata : ∃ d cells, payload v = .data d cells
    · obtain ⟨d, cells, hv⟩ := hdata
      rw [isEmptyWithin_data hv] at h ⊢
      exact allM_mono (fun _ _ => ih) h
    · push Not at hdata
      rwa [isEmptyWithin_flat hdata _ (depth + 1)]

/-- One step further a view reads off what it has found in the cells. -/
theorem isEmptyWithin_next {m n : ℕ} (h : σ.emptyAt m = σ.emptyAt n) (v : Value) :
    σ.isEmptyWithin (m + 1) v = σ.isEmptyWithin (n + 1) v := by
  by_cases hdata : ∃ d cells, payload v = .data d cells
  · obtain ⟨d, cells, hv⟩ := hdata
    rw [isEmptyWithin_data hv, isEmptyWithin_data hv, h]
  · push Not at hdata
    exact isEmptyWithin_flat hdata _ _

/-- More depth than the store has does not change whether a value counts as empty. -/
theorem isEmptyWithin_eq (h : σ.depth ≤ depth) : σ.isEmptyWithin depth v = σ.isEmpty? v := by
  have hsucc : ∀ n c answer, σ.emptyAt n c = some answer → σ.emptyAt (n + 1) c = some answer :=
    fun n c _ => isEmptyWithin_succ
  have hnext : ∀ m n, σ.emptyAt m = σ.emptyAt n → σ.emptyAt (m + 1) = σ.emptyAt (n + 1) :=
    fun _ _ heq => funext fun c => isEmptyWithin_next heq _
  have hcells : ∀ c ∉ σ.cellIds, ∀ m n, σ.emptyAt m c = σ.emptyAt n c := by
    intro c hc m n
    rw [emptyAt, emptyAt, read_eq_none hc]
    exact isEmptyWithin_flat (by simp [payload]) m n
  have hcard : σ.cellIds.card < σ.depth := by
    rw [card_cellIds, Store.depth]
    omega
  obtain ⟨m, hm⟩ := Nat.exists_eq_add_one_of_ne_zero (Nat.ne_zero_of_lt hcard)
  obtain ⟨n, rfl⟩ := Nat.exists_eq_add_one_of_ne_zero (Nat.ne_zero_of_lt (hcard.trans_le h))
  rw [isEmpty?, hm]
  exact isEmptyWithin_next (view_settles hsucc hcells hnext (by omega) (by omega)) v

/-- It can be told whether a value counts as empty just where some depth is enough for it. -/
theorem isEmpty?_eq_none_iff : σ.isEmpty? v = none ↔ ∀ depth, σ.isEmptyWithin depth v = none := by
  refine ⟨fun h depth => ?_, fun h => h σ.depth⟩
  cases hdepth : σ.isEmptyWithin depth v with
  | none => rfl
  | some answer =>
    have hmore := view_mono (fun n v _ => isEmptyWithin_succ) (Nat.le_max_left depth σ.depth)
      hdepth
    rw [isEmptyWithin_eq (Nat.le_max_right _ _), h] at hmore
    cases hmore

end Emptiness

section Equality

variable {α : Type} {f g : α → α → Option Bool} {as bs : List α} {depth : ℕ}

theorem eachSame_mono (h : ∀ a b answer, f a b = some answer → g a b = some answer)
    {answer : Bool} (hf : eachSame f as bs = some answer) : eachSame g as bs = some answer := by
  unfold eachSame at hf ⊢
  split
  · rw [if_pos ‹_›] at hf
    exact allM_mono (fun p _ => h p.1 p.2 _) hf
  · rwa [if_neg ‹_›] at hf

/-- A pair of arrays or of cells. -/
abbrev PlacePair := (ArrayId × ArrayId) ⊕ (CellId × CellId)

/-- What a comparison tells of a pair of places: one step further of arrays, of cells by what they
hold. -/
def sameAt (σ : Store) (depth : ℕ) : PlacePair → Option Bool
  | .inl p => σ.sameWithin (depth + 1) (.array p.1) (.array p.2)
  | .inr p => σ.sameWithin depth (σ.read p.1) (σ.read p.2)

/-- All pairs of places of the store. -/
def placePairs (σ : Store) : Finset PlacePair :=
  (σ.arrayIds ×ˢ σ.arrayIds).disjSum (σ.cellIds ×ˢ σ.cellIds)

theorem card_placePairs (σ : Store) : σ.placePairs.card < σ.depth * σ.depth := by
  rw [placePairs, Finset.card_disjSum, Finset.card_product, Finset.card_product, card_arrayIds,
    card_cellIds, Store.depth]
  nlinarith

/-- More depth changes no answer. -/
theorem sameWithin_succ {answer : Bool} (h : σ.sameWithin depth v w = some answer) :
    σ.sameWithin (depth + 1) v w = some answer := by
  induction depth generalizing v w answer with
  | zero =>
    cases v with
    | array a =>
      cases w with
      | array b =>
        by_cases hab : a = b
        · simpa [sameWithin, hab] using h
        · simp [sameWithin, hab] at h
      | _ => exact h
    | data d as =>
      cases w with
      | data e bs =>
        by_cases hname : d.name = e.name
        · by_cases hcells : as = bs
          · simpa [sameWithin, hname, hcells] using h
          · simp [sameWithin, hname, hcells] at h
        · simpa [sameWithin, hname] using h
      | _ => exact h
    | _ => cases w <;> exact h
  | succ depth ih =>
    cases v with
    | array a =>
      cases w with
      | array b =>
        rw [sameWithin] at h ⊢
        split
        · rwa [if_pos ‹_›] at h
        · rw [if_neg ‹_›] at h
          exact eachSame_mono (fun _ _ _ => ih) h
      | _ => exact h
    | data d as =>
      cases w with
      | data e bs =>
        rw [sameWithin] at h ⊢
        split
        · rwa [if_pos ‹_›] at h
        · rw [if_neg ‹_›] at h
          split
          · rwa [if_pos ‹_›] at h
          · rw [if_neg ‹_›] at h
            exact eachSame_mono (fun _ _ _ => ih) h
      | _ => exact h
    | _ => cases w <;> exact h

/-- One step further a comparison reads off what it has found at the places. -/
theorem sameWithin_next {m n : ℕ} (h : σ.sameAt m = σ.sameAt n) (v w : Value) :
    σ.sameWithin (m + 1) v w = σ.sameWithin (n + 1) v w := by
  cases v with
  | array a =>
    cases w with
    | array b => exact congrFun h (.inl (a, b))
    | _ => rfl
  | data d as =>
    cases w with
    | data e bs =>
      have hcells : (fun a b => σ.sameWithin m (σ.read a) (σ.read b)) =
          fun a b => σ.sameWithin n (σ.read a) (σ.read b) :=
        funext fun a => funext fun b => congrFun h (.inr (a, b))
      rw [sameWithin, sameWithin, hcells]
    | _ => rfl
  | _ => cases w <;> rfl

theorem sameWithin_none_left (m n : ℕ) (w : Value) :
    σ.sameWithin m .none w = σ.sameWithin n .none w := by
  cases m <;> cases n <;> cases w <;> rfl

theorem sameWithin_none_right (m n : ℕ) (v : Value) :
    σ.sameWithin m v .none = σ.sameWithin n v .none := by
  cases m <;> cases n <;> cases v <;> rfl

/-- Outside of the store there is nothing to follow. -/
theorem sameAt_eq {p : PlacePair} (hp : p ∉ σ.placePairs) (m n : ℕ) :
    σ.sameAt m p = σ.sameAt n p := by
  rcases p with ⟨a, b⟩ | ⟨a, b⟩
  · rw [placePairs, Finset.inl_mem_disjSum, Finset.mem_product, not_and_or] at hp
    rw [sameAt, sameAt, sameWithin, sameWithin]
    rcases hp with ha | hb
    · rw [elements_eq_nil ha]
      cases σ.elements b <;> rfl
    · rw [elements_eq_nil hb]
      cases σ.elements a <;> rfl
  · rw [placePairs, Finset.inr_mem_disjSum, Finset.mem_product, not_and_or] at hp
    rcases hp with ha | hb
    · rw [sameAt, sameAt, read_eq_none ha]
      exact sameWithin_none_left m n _
    · rw [sameAt, sameAt, read_eq_none hb]
      exact sameWithin_none_right m n _

/-- More depth than there are pairs of places changes nothing about a comparison. -/
theorem sameWithin_eq (h : σ.depth * σ.depth ≤ depth) : σ.sameWithin depth v w = σ.same? v w := by
  have hsucc : ∀ n p answer, σ.sameAt n p = some answer → σ.sameAt (n + 1) p = some answer := by
    rintro n (p | p) answer <;> exact sameWithin_succ
  have hnext : ∀ m n, σ.sameAt m = σ.sameAt n → σ.sameAt (m + 1) = σ.sameAt (n + 1) := by
    intro m n heq
    funext p
    rcases p with ⟨a, b⟩ | ⟨a, b⟩
    · have hcells : σ.sameWithin (m + 1) = σ.sameWithin (n + 1) :=
        funext fun v => funext fun w => sameWithin_next heq v w
      rw [sameAt, sameAt, sameWithin, sameWithin, hcells]
    · exact sameWithin_next heq _ _
  have hcard := σ.card_placePairs
  obtain ⟨m, hm⟩ := Nat.exists_eq_add_one_of_ne_zero (Nat.ne_zero_of_lt hcard)
  obtain ⟨n, rfl⟩ := Nat.exists_eq_add_one_of_ne_zero (Nat.ne_zero_of_lt (hcard.trans_le h))
  rw [same?, hm]
  exact sameWithin_next (view_settles hsucc (fun _ => sameAt_eq) hnext (by omega) (by omega)) v w

/-- It can be told whether values are the same just where some depth is enough for it. -/
theorem same?_eq_none_iff : σ.same? v w = none ↔ ∀ depth, σ.sameWithin depth v w = none := by
  refine ⟨fun h depth => ?_, fun h => h _⟩
  cases hdepth : σ.sameWithin depth v w with
  | none => rfl
  | some answer =>
    have hsucc : ∀ n (p : Value × Value) answer, σ.sameWithin n p.1 p.2 = some answer →
        σ.sameWithin (n + 1) p.1 p.2 = some answer := fun _ _ _ => sameWithin_succ
    have hmore : σ.sameWithin (max depth (σ.depth * σ.depth)) (v, w).1 (v, w).2 = some answer :=
      view_mono hsucc (Nat.le_max_left _ _) hdepth
    rw [sameWithin_eq (Nat.le_max_right _ _), h] at hmore
    cases hmore

end Equality

end Store

end BasicScript
