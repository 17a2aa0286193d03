import BasicScript.Proofs.Types.Common
import BasicScript.Proofs.Types.Refit

/-! # Coercion by way of a wider type

A value that is coerced to a type above its own, and then on to the type that
it is meant for, comes out as if it had been coerced at once. Only a number
that the first type makes wider than the second one allows is in the way. The
types in question are those without floating numbers and without `any`.
-/

namespace BasicScript

namespace Ty

/-- Types built from `bool`, the whole numbers, `char`, `string`, data types and enums by forming
arrays. -/
def exact : Ty → Bool
  | .prim .bool | .prim .byte | .prim .short | .prim .int | .prim .long | .prim .char
  | .prim .string => true
  | .data _ | .enum _ => true
  | .array element _ => element.exact
  | _ => false

/-- Whether coercion to the first type makes a number in the value wider than the second type. -/
def overshoots (σ : Store) : Ty → Ty → Value → Bool
  | .array x _, .array y _, .array id => (σ.elements id).any (overshoots σ x y)
  | .prim p, .prim q, .number _ =>
    match p.kind?, q.kind? with
    | some k, some j => !decide (k ≤ j)
    | _, _ => false
  | _, _, _ => false

variable {a c t : Ty} {j k : NumericKind} {σ σ' : Store} {v w : Value} {id : ArrayId} {n : Number}

theorem exact_kind (ht : t.exact = true) (hk : t.kind? = some k) :
    t = ofKind k ∧ k.isIntegral = true := by
  obtain rfl := kind?_eq hk
  exact ⟨rfl, by cases k <;> first | rfl | cases ht⟩

theorem exact_not_any (ht : t.exact = true) : t.acceptsAnything = false := by
  cases t with
  | prim p => cases p <;> first | rfl | cases ht
  | inferred => cases ht
  | _ => rfl

/-- The type of arrays that an exact type is, if it has elements. -/
theorem exact_array {element : Ty} (ht : t.exact = true) (helement : t.element? = some element) :
    ∃ size, t = .array element size ∧ element.exact = true := by
  cases t with
  | array x size => cases helement; exact ⟨size, rfl, ht⟩
  | vararg x => cases ht
  | _ => cases helement

/-- Of the exact types the numeric ones take numbers, up to their own kind. -/
theorem exact_accepts_number (ht : t.exact = true) :
    t.Accepts σ (.number n) ↔ ∃ j, t.kind? = some j ∧ n.kind ≤ j := by
  constructor
  · rintro ⟨w, σ', hconform⟩
    obtain ⟨hresult, hcheck⟩ := conform_ok.mp hconform
    cases hj : t.kind? with
    | some j =>
      refine ⟨j, rfl, ?_⟩
      by_contra hle
      have hne : n.kind ≠ j := fun hkind => hle (hkind ▸ Nat.le_refl _)
      obtain rfl := kind?_eq hj
      simp [ofKind, coerce, coerceNumber, Number.widen?, hne, hle, Coerced.result?] at hresult
    | none =>
      have hsame : t.coerce σ (.number n) = .same := by
        cases t with
        | prim p => rw [kind?] at hj; simp only [coerce, hj]
        | _ => rfl
      rw [hsame, Coerced.result?] at hresult
      cases hresult
      cases t with
      | prim p => cases p <;> first | (cases hj; done) | (cases ht; done) | cases hcheck
      | inferred => cases ht
      | _ => cases hcheck
  · rintro ⟨j, hj, hle⟩
    obtain rfl := kind?_eq hj
    exact accepts_number hle

theorem refitLeaf_number (h : n.kind ≤ k) :
    (ofKind k).refitLeaf (.number n) = .number (n.convert k) :=
  (coerce_leaf (fun _ hid => Value.noConfusion hid) (coerce_ofKind .fresh h)).2.1.symm

theorem overshoots_number (hj : t.kind? = some j) :
    (ofKind k).overshoots σ t (.number n) = !decide (k ≤ j) := by
  obtain rfl := kind?_eq hj
  simp only [ofKind, overshoots, Primitive.kind?_primitive]

theorem overshoots_adds (hadds : σ.Adds σ') (hσ : σ.Closed) (hv : σ.Within v) :
    c.overshoots σ' t v = c.overshoots σ t v := by
  induction c using element_induction generalizing t v with
  | h c ih =>
    cases c with
    | array x n =>
      cases t with
      | array y m =>
        cases v with
        | array id =>
          have helements : (σ'.elements id).any (x.overshoots σ' y) =
              (σ.elements id).any (x.overshoots σ y) := by
            rw [hadds.elements hv, Bool.eq_iff_iff, List.any_eq_true, List.any_eq_true]
            exact exists_congr fun u => and_congr_right fun hu => by
              rw [ih x rfl (hσ.elements id u hu)]
          exact helements
        | _ => rfl
      | _ => rfl
    | prim p => cases t <;> cases v <;> rfl
    | _ => rfl

/-- By way of the type, a value is accepted exactly where it is accepted at once, unless a number
in it becomes too wide; and then the outcome looks the same. -/
def Detours (c : Ty) : Prop :=
  ∀ {a t : Ty} {σ σ' : Store} {v w : Value}, t.exact = true → a.common c = c →
    a.conform σ v = .ok (v, σ) → σ.Closed → σ.Within v → c.Became σ σ' v w →
      (t.Accepts σ' w ↔ t.Accepts σ v ∧ c.overshoots σ t v = false) ∧
      (t.Accepts σ' w → ∀ depth, t.refit (σ'.shape depth w) = t.refit (σ.shape depth v))

/-- A type that is neither numeric nor one of arrays leaves alone what is below it. -/
theorem coerce_above_same (hkind : c.kind? = none) (harray : ∀ x n, c ≠ array x n)
    (h : a.common c = c) (hv : a.conform σ v = .ok (v, σ)) : c.coerce σ v = .same := by
  rcases above_cases h with rfl | rfl | ⟨j, k, -, rfl, -⟩ | ⟨x, n, y, -, rfl, -⟩
  · exact (conform_unchanged.mp hv).1
  · rfl
  · cases k <;> cases hkind
  · exact absurd rfl (harray y none)

theorem overshoots_none (hkind : c.kind? = none) (harray : ∀ x n, c ≠ array x n) :
    c.overshoots σ t v = false := by
  cases c with
  | prim p =>
    rw [kind?] at hkind
    cases t <;> cases v <;> first | rfl | simp only [overshoots, hkind]
  | array x n => exact absurd rfl (harray x n)
  | _ => rfl

/-- The detour by way of a wider numeric kind. -/
theorem detour_number (ht : t.exact = true) (hle : n.kind ≤ k) :
    (t.Accepts σ (.number (n.convert k)) ↔
      t.Accepts σ (.number n) ∧ (ofKind k).overshoots σ t (.number n) = false) ∧
    (t.Accepts σ (.number (n.convert k)) →
      t.refitLeaf (.number (n.convert k)) = t.refitLeaf (.number n)) := by
  rw [exact_accepts_number ht, exact_accepts_number ht, Number.kind_convert]
  refine ⟨⟨?_, ?_⟩, ?_⟩
  · rintro ⟨j, hj, hkj⟩
    refine ⟨⟨j, hj, Nat.le_trans hle hkj⟩, ?_⟩
    rw [overshoots_number hj, decide_eq_true hkj, Bool.not_true]
  · rintro ⟨⟨j, hj, -⟩, hover⟩
    rw [overshoots_number hj, Bool.not_eq_false', decide_eq_true_eq] at hover
    exact ⟨j, hj, hover⟩
  · rintro ⟨j, hj, hkj⟩
    obtain ⟨rfl, hint⟩ := exact_kind ht hj
    rw [refitLeaf_number (by rwa [Number.kind_convert]), refitLeaf_number (Nat.le_trans hle hkj),
      Number.convert_convert hle hkj hint]

/-- The detour by way of a type of arrays comes down to that of the elements. -/
theorem detour_array {x y element : Ty} {size m : Option Nat} {id' : ArrayId}
    (hy : y.Detours) (helement : element.exact = true) (hσ : σ.Closed) (hσ' : σ'.Closed)
    (hunchanged : ∀ u ∈ σ.elements id, x.conform σ u = .ok (u, σ)) (hxy : x.common y = y)
    (hall : List.Forall₂ (y.Became σ σ') (σ.elements id) (σ'.elements id')) :
    ((array element size).Accepts σ' (.array id') ↔ (array element size).Accepts σ (.array id) ∧
      (array y m).overshoots σ (array element size) (.array id) = false) ∧
    ((array element size).Accepts σ' (.array id') → ∀ depth,
      (array element size).refit (σ'.shape depth (.array id')) =
        (array element size).refit (σ.shape depth (.array id))) := by
  have hnot := exact_not_any helement
  have hdetour : List.Forall₂ (fun u w =>
      (element.Accepts σ u ∧ y.overshoots σ element u = false ↔ element.Accepts σ' w) ∧
      (element.Accepts σ' w → ∀ depth,
        element.refit (σ'.shape depth w) = element.refit (σ.shape depth u)))
      (σ.elements id) (σ'.elements id') := by
    refine forall₂_of_mem hall fun u hu w hw => ?_
    obtain ⟨haccepts, hshape⟩ := hy helement hxy (hunchanged u hu) hσ (hσ.elements id u hu) hw
    exact ⟨haccepts.symm, hshape⟩
  have hover : (array y m).overshoots σ (array element size) (.array id) = false ↔
      ∀ u ∈ σ.elements id, y.overshoots σ element u = false := by
    rw [overshoots, List.any_eq_false]
    simp only [Bool.not_eq_true]
  have harray : ∀ {τ : Store} {id : ArrayId}, τ.Closed →
      ((array element size).Accepts τ (.array id) ↔
        (∀ n, size = some n → (τ.elements id).length = n) ∧
          ∀ u ∈ τ.elements id, element.Accepts τ u) := by
    intro τ id hτ
    rw [accepts_array rfl (accepts_adds element) hτ, hnot]
    simp only [Bool.false_eq_true, false_or, size?]
  have hiff : (array element size).Accepts σ' (.array id') ↔
      (array element size).Accepts σ (.array id) ∧
        (array y m).overshoots σ (array element size) (.array id) = false := by
    rw [harray hσ', harray hσ, hover, hall.length_eq, and_assoc, ← forall₂_and]
    exact and_congr_right fun _ => (forall_mem_iff_of_forall₂ hdetour fun hux => hux.1).symm
  refine ⟨hiff, fun h depth => ?_⟩
  obtain ⟨haccepts, hfits⟩ := hiff.mp h
  cases depth with
  | zero => rfl
  | succ depth =>
    have hparts : ((σ'.elements id').map (σ'.shape depth)).map element.refit =
        ((σ.elements id).map (σ.shape depth)).map element.refit := by
      rw [List.map_map, List.map_map]
      refine map_eq_of_forall₂ (forall₂_of_mem hdetour fun u hu x hux => ?_)
      exact hux.2 (hux.1.mp ⟨((harray hσ).mp haccepts).2 u hu, hover.mp hfits u hu⟩) depth
    rw [Store.shape, Store.shape, refit_array rfl, refit_array rfl, hnot,
      if_neg Bool.false_ne_true, if_neg Bool.false_ne_true, hparts]

/-- No number is touched by the way into an array of anything. -/
theorem overshoots_into_any {y : Ty} {m : Option Nat} (hy : y.acceptsAnything = true) :
    (array y m).overshoots σ t (.array id) = false := by
  have hkind : y.kind? = none := by
    cases y with
    | prim p => cases p <;> first | rfl | cases hy
    | _ => rfl
  have harray : ∀ x n, y ≠ array x n := fun x n hxy => by
    rw [hxy] at hy
    cases hy
  cases t with
  | array z n =>
    rw [overshoots, List.any_eq_false]
    intro u _
    rw [overshoots_none hkind harray]
    exact Bool.false_ne_true
  | _ => rfl

theorem detours (c : Ty) : c.Detours := by
  induction c using element_induction with
  | h c ih =>
    intro a t σ σ' v w ht habove hv hσ hin hbecame
    obtain ⟨σ₁, σ₂, hσ₁, hσ₂, hcoerce⟩ := hbecame
    have hin₁ := hin.adds hσ₁.adds
    obtain ⟨hclosed, hw⟩ := coerce_closed hcoerce hσ₁.closed hin₁
    have hv₁ : a.conform σ₁ v = .ok (v, σ₁) := by
      obtain ⟨hsame, hcheck⟩ := conform_unchanged.mp hv
      exact conform_unchanged.mpr
        ⟨coerce_same_adds hsame hσ₁.adds, (check_adds hσ₁.adds hσ hin).mp hcheck⟩
    -- it is enough to look at the two stores between which the coercion takes place
    suffices hnow : (t.Accepts σ₂ w ↔ t.Accepts σ₁ v ∧ c.overshoots σ₁ t v = false) ∧
        (t.Accepts σ₂ w → ∀ depth, t.refit (σ₂.shape depth w) = t.refit (σ₁.shape depth v)) by
      rw [← t.accepts_adds hσ₂.adds hclosed hσ₂.closed hw,
        t.accepts_adds hσ₁.adds hσ hσ₁.closed hin, ← overshoots_adds hσ₁.adds hσ hin]
      refine ⟨hnow.1, fun h depth => ?_⟩
      rw [Store.shape_adds hσ₂.adds hclosed hw, ← Store.shape_adds hσ₁.adds hσ hin]
      exact hnow.2 h depth
    by_cases harray : ∃ y m, c = array y m
    · obtain ⟨y, m, rfl⟩ := harray
      obtain ⟨x, n, rfl, hxy⟩ := below_array habove
      obtain ⟨id, rfl⟩ := check_is_array rfl (conform_ok.mp hv₁).2
      cases hany : y.acceptsAnything with
      | true =>
        rw [coerce_array rfl, coerceElements, if_pos hany, Coerced.result?] at hcoerce
        cases hcoerce
        rw [overshoots_into_any hany]
        exact ⟨(and_iff_left rfl).symm, fun _ _ => rfl⟩
      | false =>
        obtain ⟨id', rfl, -, hall⟩ := coerce_became rfl hany hσ₁.closed hcoerce
        have hx : x.acceptsAnything = false := by
          rw [← Bool.not_eq_true]
          intro hx
          rw [acceptsAnything_above hx hxy] at hany
          cases hany
        cases helement : t.element? with
        | some element =>
          obtain ⟨size, rfl, hexact⟩ := exact_array ht helement
          exact detour_array (ih y rfl) hexact hσ₁.closed hclosed
            (conform_unchanged_elements rfl hx hv₁) hxy hall
        | none =>
          rw [accepts_array_scalar helement, accepts_array_scalar helement, exact_not_any ht]
          exact ⟨by simp only [Bool.false_eq_true, false_and], fun h => absurd h Bool.false_ne_true⟩
    cases hkind : c.kind? with
    | some k =>
      obtain rfl := kind?_eq hkind
      obtain ⟨j, rfl, hjk⟩ := below_kind habove
      obtain ⟨n, rfl, rfl⟩ := number_of_check (conform_ok.mp hv₁).2
      rw [coerce_ofKind σ₁ hjk] at hcoerce
      cases hcoerce
      obtain ⟨hiff, hleaf⟩ := detour_number (σ := σ₁) ht hjk
      refine ⟨hiff, fun h depth => ?_⟩
      have hnumber : ∀ (τ : Store) (m : Number), τ.shape depth (.number m) = .leaf (.number m) :=
        fun τ m => shape_leaf (fun _ hid => Value.noConfusion hid) τ depth
      rw [hnumber, hnumber, refit_leaf, refit_leaf, hleaf h]
    | none =>
      have harray' : ∀ y m, c ≠ array y m := fun y m hc => harray ⟨y, m, hc⟩
      rw [coerce_above_same hkind harray' habove hv₁, Coerced.result?] at hcoerce
      cases hcoerce
      rw [overshoots_none hkind harray']
      exact ⟨(and_iff_left rfl).symm, fun _ _ => rfl⟩

end Ty

end BasicScript
