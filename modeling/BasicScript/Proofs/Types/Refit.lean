import BasicScript.Proofs.Types.Agreement
import BasicScript.Proofs.Types.Idempotence

/-! # Coercion of shapes

What coercion makes of a value shows in the shape of the value alone: it is a
function on shapes, and so is the judgement of a typed place. Whatever else is
stored, and whenever the coercion takes place, the outcome looks the same.
-/

namespace BasicScript

section

variable {α β γ : Type} {R S : α → β → Prop} {xs : List α} {ys : List β}

theorem forall₂_of_mem (h : List.Forall₂ R xs ys) (hR : ∀ x ∈ xs, ∀ y, R x y → S x y) :
    List.Forall₂ S xs ys := by
  induction h with
  | nil => exact .nil
  | cons hxy _ ih =>
    rw [List.forall_mem_cons] at hR
    exact .cons (hR.1 _ hxy) (ih hR.2)

theorem forall₂_comp {T : β → γ → Prop} {zs : List γ} (h : List.Forall₂ R xs ys)
    (h' : List.Forall₂ T ys zs) : List.Forall₂ (fun x z => ∃ y, R x y ∧ T y z) xs zs := by
  induction h generalizing zs with
  | nil =>
    cases h'
    exact .nil
  | cons hxy _ ih =>
    cases h' with
    | cons hyz hrest => exact .cons ⟨_, hxy, hyz⟩ (ih hrest)

theorem map_eq_of_forall₂ {f : α → γ} {g : β → γ}
    (h : List.Forall₂ (fun x y => g y = f x) xs ys) : ys.map g = xs.map f := by
  induction h with
  | nil => rfl
  | cons hxy _ ih => rw [List.map_cons, List.map_cons, hxy, ih]

end

namespace Ty

variable {t element : Ty} {σ σ' τ : Store} {v w : Value} {id : ArrayId}

/-- Coercion turned the value into another one, at some time between two stores. -/
def Became (t : Ty) (σ σ' : Store) (v w : Value) : Prop :=
  ∃ σ₁ σ₂, σ.Later σ₁ ∧ σ₂.Later σ' ∧ (t.coerce σ₁ v).result? σ₁ v = some (w, σ₂)

theorem Became.now (hσ : σ.Closed) (hv : σ.Within v)
    (h : (t.coerce σ v).result? σ v = some (w, σ')) : t.Became σ σ' v w :=
  ⟨σ, σ', ⟨.refl σ, hσ⟩, ⟨.refl σ', (coerce_closed h hσ hv).1⟩, h⟩

theorem Became.widen {ρ ρ' : Store} (h : t.Became σ σ' v w) (hρ : ρ.Later σ) (hρ' : σ'.Later ρ') :
    t.Became ρ ρ' v w := by
  obtain ⟨σ₁, σ₂, hσ₁, hσ₂, hcoerce⟩ := h
  exact ⟨σ₁, σ₂, hρ.trans hσ₁, hσ₂.trans hρ', hcoerce⟩

/-- The values of a row are coerced one after the other. -/
theorem each_became {vs ws : List Value} {moved : Bool}
    (h : Coerced.each t.coerce σ vs = some (moved, ws, σ')) (hσ : σ.Closed)
    (hvs : ∀ v ∈ vs, σ.Within v) :
    σ.Later σ' ∧ (∀ w ∈ ws, σ'.Within w) ∧ List.Forall₂ (t.Became σ σ') vs ws := by
  refine Coerced.each_induction (P := fun σ vs ws σ' => σ.Closed → (∀ v ∈ vs, σ.Within v) →
    σ.Later σ' ∧ (∀ w ∈ ws, σ'.Within w) ∧ List.Forall₂ (t.Became σ σ') vs ws) ?_ ?_ h hσ hvs
  · exact fun σ hσ _ => ⟨⟨.refl σ, hσ⟩, List.forall_mem_nil _, .nil⟩
  · intro σ v w σ₁ vs ws σ' hv hrest hσ hvs
    rw [List.forall_mem_cons] at hvs
    obtain ⟨hσ₁, hw⟩ := coerce_closed hv hσ hvs.1
    have hlater : σ.Later σ₁ := ⟨coerce_adds hv, hσ₁⟩
    have hself : σ.Later σ := ⟨.refl σ, hσ⟩
    obtain ⟨hσ', hws, hall⟩ := hrest hσ₁ fun u hu => (hvs.2 u hu).adds hlater.adds
    refine ⟨hlater.trans hσ', List.forall_mem_cons.mpr ⟨hw.adds hσ'.adds, hws⟩,
      .cons ((Became.now hσ hvs.1 hv).widen hself hσ') (hall.imp fun u x hux => ?_)⟩
    exact hux.widen hlater ⟨.refl σ', hσ'.closed⟩

/-- The outcome of the coercion of an array is an array of what became of the elements. -/
theorem coerce_became (ht : t.element? = some element) (hany : element.acceptsAnything = false)
    (hσ : σ.Closed) (h : (t.coerce σ (.array id)).result? σ (.array id) = some (w, σ')) :
    ∃ id', w = .array id' ∧ (∀ x ∈ σ'.elements id', σ'.Within x) ∧
      List.Forall₂ (element.Became σ σ') (σ.elements id) (σ'.elements id') := by
  rw [coerce_array ht] at h
  rcases Coerced.result?_some.mp h with ⟨hsame, rfl, rfl⟩ | hchanged
  · obtain ⟨-, helements⟩ := (coerceElements_same_iff hany).mp hsame
    refine ⟨id, rfl, hσ.elements id, List.forall₂_same.mpr fun u hu => ?_⟩
    exact .now hσ (hσ.elements id u hu) (by rw [helements u hu, Coerced.result?])
  · obtain ⟨-, moved, ws, σ₁, heach, rfl, rfl⟩ := coerceElements_changed hchanged
    obtain ⟨hσ₁, hws, hall⟩ := each_became heach hσ (hσ.elements id)
    have hnew : σ₁.Later (σ₁.newArray element ws).2 :=
      ⟨.newArray σ₁ element ws, hσ₁.closed.newArray hws⟩
    refine ⟨_, rfl, ?_, ?_⟩
    · rw [Store.elements_newArray]
      exact fun x hx => (hws x hx).adds hnew.adds
    · rw [Store.elements_newArray]
      exact hall.imp fun u x hux => hux.widen ⟨.refl σ, hσ⟩ hnew

/-- What coercion to the type makes of a value that is no array. -/
def refitLeaf (t : Ty) (v : Value) : Value :=
  match t.coerce .fresh v with
  | .changed w _ => w
  | _ => v

/-- What coercion to the type makes of a shape. -/
def refit : Ty → Shape → Shape
  | t, .leaf v => .leaf (t.refitLeaf v)
  | .array element _, .array parts | .vararg element, .array parts =>
    if element.acceptsAnything then .array parts else .array (parts.map element.refit)
  | _, shape => shape

theorem refit_leaf (t : Ty) (v : Value) : t.refit (.leaf v) = .leaf (t.refitLeaf v) := by
  cases t <;> rfl

theorem refit_cut (t : Ty) : t.refit .cut = .cut := by
  cases t <;> rfl

theorem refit_array (ht : t.element? = some element) (parts : List Shape) :
    t.refit (.array parts) =
      if element.acceptsAnything then .array parts else .array (parts.map element.refit) := by
  cases t <;> cases ht <;> rfl

theorem refit_same (ht : t.element? = none) (parts : List Shape) :
    t.refit (.array parts) = .array parts := by
  cases t <;> first | rfl | cases ht

/-- A type of scalars leaves arrays alone. -/
theorem coerce_array_same (ht : t.element? = none) (σ : Store) (id : ArrayId) :
    t.coerce σ (.array id) = .same := by
  cases t with
  | prim p =>
    rw [coerce]
    cases p.kind? <;> rfl
  | array element size => cases ht
  | vararg element => cases ht
  | _ => rfl

/-- A type of arrays leaves all other values alone. -/
theorem coerce_leaf_same (ht : t.element? = some element) (hv : ∀ id, v ≠ .array id)
    (σ : Store) : t.coerce σ v = .same := by
  cases v with
  | array id => exact absurd rfl (hv id)
  | _ => cases t <;> cases ht <;> rfl

/-- A value that is no array is coerced alike in every store, to one that is no array. -/
theorem coerce_leaf (hv : ∀ id, v ≠ .array id)
    (h : (t.coerce σ v).result? σ v = some (w, σ')) :
    σ' = σ ∧ w = t.refitLeaf v ∧ ∀ id, w ≠ .array id := by
  cases ht : t.element? with
  | none =>
    obtain ⟨hσ, hfresh⟩ : σ' = σ ∧ (t.coerce .fresh v).result? .fresh v = some (w, .fresh) :=
      coerce_scalar ht h
    refine ⟨hσ, ?_⟩
    unfold refitLeaf
    rcases Coerced.result?_some.mp hfresh with ⟨hsame, rfl, -⟩ | hchanged
    · rw [hsame]
      exact ⟨rfl, hv⟩
    · rw [hchanged]
      refine ⟨rfl, fun id hid => ?_⟩
      rcases coerce_changed hchanged with ⟨-, n, rfl, -⟩ | ⟨-, array, -, harray, -⟩
      · cases hid
      · exact hv array harray
  | some element =>
    rw [coerce_leaf_same ht hv, Coerced.result?] at h
    cases h
    rw [refitLeaf, coerce_leaf_same ht hv]
    exact ⟨rfl, rfl, hv⟩

theorem shape_leaf (hv : ∀ id, v ≠ .array id) (σ : Store) (depth : Nat) :
    σ.shape depth v = .leaf v := by
  cases v with
  | array id => exact absurd rfl (hv id)
  | _ => cases depth <;> rfl

/-- Coercion is `refit` on shapes. -/
theorem Became.shape (h : t.Became σ σ' v w) (hσ : σ.Closed) (hv : σ.Within v) (depth : Nat) :
    σ'.shape depth w = t.refit (σ.shape depth v) := by
  induction t using element_induction generalizing σ σ' v w depth with
  | h t ih =>
    obtain ⟨σ₁, σ₂, hσ₁, hσ₂, hcoerce⟩ := h
    have hv₁ := hv.adds hσ₁.adds
    obtain ⟨hclosed, hw⟩ := coerce_closed hcoerce hσ₁.closed hv₁
    rw [Store.shape_adds hσ₂.adds hclosed hw, ← Store.shape_adds hσ₁.adds hσ hv]
    by_cases harray : ∃ id, v = .array id
    · obtain ⟨id, rfl⟩ := harray
      cases ht : t.element? with
      | none =>
        rw [coerce_array_same ht, Coerced.result?] at hcoerce
        cases hcoerce
        cases depth with
        | zero => exact (refit_cut t).symm
        | succ depth => exact (refit_same ht _).symm
      | some element =>
        cases hany : element.acceptsAnything with
        | true =>
          rw [coerce_array ht, coerceElements, if_pos hany, Coerced.result?] at hcoerce
          cases hcoerce
          cases depth with
          | zero => exact (refit_cut t).symm
          | succ depth => exact ((refit_array ht _).trans (if_pos hany)).symm
        | false =>
          obtain ⟨id', rfl, hin, hall⟩ := coerce_became ht hany hσ₁.closed hcoerce
          cases depth with
          | zero => exact (refit_cut t).symm
          | succ depth =>
            have hparts : (σ₂.elements id').map (σ₂.shape depth) =
                ((σ₁.elements id).map (σ₁.shape depth)).map element.refit := by
              rw [List.map_map]
              exact map_eq_of_forall₂ (forall₂_of_mem hall fun u hu x hux =>
                ih element ht hux hσ₁.closed (hσ₁.closed.elements id u hu) depth)
            rw [Store.shape, Store.shape, refit_array ht, hany, if_neg Bool.false_ne_true, hparts]
    · have hleaf : ∀ id, v ≠ .array id := fun id hid => harray ⟨id, hid⟩
      obtain ⟨rfl, rfl, hout⟩ := coerce_leaf hleaf hcoerce
      rw [shape_leaf hleaf, shape_leaf hout, refit_leaf]

/-- Among the types of scalars, only those for anything take arrays. -/
theorem accepts_array_scalar (ht : t.element? = none) :
    t.Accepts σ (.array id) ↔ t.acceptsAnything = true := by
  constructor
  · rintro ⟨w, σ', hconform⟩
    obtain ⟨hresult, hcheck⟩ := conform_ok.mp hconform
    rw [coerce_array_same ht, Coerced.result?] at hresult
    cases hresult
    have hfits := (check_scalar (τ := σ) ht).mp hcheck
    cases t with
    | inferred => rfl
    | prim p => cases p <;> first | rfl | cases hfits
    | array element size => cases ht
    | vararg element => cases ht
    | data name => exact hfits.elim
    | enum name => exact hfits.elim
  · intro hany
    refine ⟨.array id, σ, conform_ok.mpr ⟨?_, check_of_any hany rfl⟩⟩
    rw [coerce_array_same ht, Coerced.result?]

/-- A typed place judges a value by its shape. -/
theorem accepts_shape (hσ : σ.Closed) (hτ : τ.Closed) (h : σ.SameShape v τ w) :
    t.Accepts σ v ↔ t.Accepts τ w := by
  induction t using element_induction generalizing v w with
  | h t ih =>
    by_cases harray : ∃ id, v = .array id
    · obtain ⟨id, rfl⟩ := harray
      obtain ⟨id', rfl, helements⟩ := Store.SameShape.array_iff.mp h
      cases ht : t.element? with
      | none => rw [accepts_array_scalar ht, accepts_array_scalar ht]
      | some element =>
        rw [accepts_array ht (accepts_adds element) hσ, accepts_array ht (accepts_adds element) hτ,
          helements.length_eq]
        exact and_congr_right fun _ => or_congr_right
          (forall_mem_iff_of_forall₂ helements fun hux => ih element ht hux)
    · obtain rfl : w = v := h.scalar fun id hid => harray ⟨id, hid⟩
      cases ht : t.element? with
      | none => exact ⟨accepts_scalar ht, accepts_scalar ht⟩
      | some element =>
        exact ⟨fun ha => absurd (accepts_is_array ht ha) harray,
          fun ha => absurd (accepts_is_array ht ha) harray⟩

end Ty

end BasicScript
