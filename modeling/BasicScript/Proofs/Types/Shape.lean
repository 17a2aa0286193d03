import BasicScript.Proofs.Types.Acceptance

/-! # Shapes of values

What a value shows when its arrays are unfolded through the store, down to a
depth, without their handles and tags. Values of the same shape at every depth
are structurally equal, where two numbers of a floating kind are equal if they
are identical. A shape outlives the growth of the store, and membership of a
type is a matter of shape.
-/

namespace BasicScript

theorem forall_mem_iff_of_forall₂ {α β : Type} {R : α → β → Prop} {P : α → Prop} {Q : β → Prop}
    {xs : List α} {ys : List β} (h : List.Forall₂ R xs ys) (hR : ∀ {x y}, R x y → (P x ↔ Q y)) :
    (∀ x ∈ xs, P x) ↔ ∀ y ∈ ys, Q y := by
  induction h with
  | nil => exact ⟨fun _ => List.forall_mem_nil _, fun _ => List.forall_mem_nil _⟩
  | cons hxy _ ih => rw [List.forall_mem_cons, List.forall_mem_cons, hR hxy, ih]

/-- A value unfolded down to some depth. -/
inductive Shape where
  | leaf (value : Value)
  /-- An array that is too deep to be looked into. -/
  | cut
  | array (parts : List Shape)

namespace Store

/-- Shape of a value, down to `depth` arrays. -/
def shape (σ : Store) : Nat → Value → Shape
  | 0, .array _ => .cut
  | depth + 1, .array id => .array ((σ.elements id).map (shape σ depth))
  | _, v => .leaf v

/-- Structural equality of a value in one store with a value in another. -/
def SameShape (σ : Store) (v : Value) (τ : Store) (w : Value) : Prop :=
  ∀ depth, σ.shape depth v = τ.shape depth w

/-- What is inside a value: itself, and all that is inside the elements of an array. -/
inductive Inside (σ : Store) : Value → Value → Prop
  | self (v : Value) : Inside σ v v
  | element {id : ArrayId} {u w : Value} (member : u ∈ σ.elements id) (deeper : Inside σ u w) :
    Inside σ (.array id) w

/-- A value without a missing value in any array inside it. -/
def Filled (σ : Store) (v : Value) : Prop :=
  ∀ id, σ.Inside v (.array id) → ∀ u ∈ σ.elements id, u.isMissing = false

variable {σ σ' τ τ' ρ : Store} {u v w : Value} {id : ArrayId}

theorem shape_adds (hadds : σ.Adds σ') (hσ : σ.Closed) (hv : σ.Within v) (depth : Nat) :
    σ'.shape depth v = σ.shape depth v := by
  induction depth generalizing v with
  | zero => cases v <;> rfl
  | succ depth ih =>
    cases v with
    | array id =>
      simp only [shape, hadds.elements hv]
      exact congrArg Shape.array (List.map_congr_left fun u hu => ih (hσ.elements id u hu))
    | _ => rfl

namespace SameShape

theorem refl (σ : Store) (v : Value) : σ.SameShape v σ v := fun _ => rfl

theorem symm (h : σ.SameShape v τ w) : τ.SameShape w σ v := fun depth => (h depth).symm

theorem trans (h : σ.SameShape u τ v) (h' : τ.SameShape v ρ w) : σ.SameShape u ρ w :=
  fun depth => (h depth).trans (h' depth)

/-- Further arrays do not change what is there. -/
theorem adds (hadds : σ.Adds σ') (hσ : σ.Closed) (hv : σ.Within v) : σ.SameShape v σ' v :=
  fun depth => (shape_adds hadds hσ hv depth).symm

theorem scalar (h : σ.SameShape v τ w) (hv : ∀ id, v ≠ .array id) : w = v := by
  have hleaf : σ.shape 0 v = .leaf v := by
    cases v with
    | array id => exact absurd rfl (hv id)
    | _ => rfl
  have hshape := hleaf ▸ h 0
  cases w with
  | array id => exact nomatch hshape
  | _ => exact (Shape.leaf.inj hshape).symm

/-- Rows of equal shapes at every depth match one by one. -/
theorem of_map {vs ws : List Value}
    (h : ∀ depth, vs.map (σ.shape depth) = ws.map (τ.shape depth)) :
    List.Forall₂ (fun v w => σ.SameShape v τ w) vs ws := by
  induction vs generalizing ws with
  | nil =>
    cases ws with
    | nil => exact .nil
    | cons w ws => exact nomatch h 0
  | cons v vs ih =>
    cases ws with
    | nil => exact nomatch h 0
    | cons w ws =>
      simp only [List.map_cons, List.cons.injEq] at h
      exact .cons (fun depth => (h depth).1) (ih fun depth => (h depth).2)

theorem map_eq {vs ws : List Value} (h : List.Forall₂ (fun v w => σ.SameShape v τ w) vs ws)
    (depth : Nat) : vs.map (σ.shape depth) = ws.map (τ.shape depth) := by
  induction h with
  | nil => rfl
  | cons hvw _ ih => rw [List.map_cons, List.map_cons, hvw depth, ih]

/-- Arrays are structurally equal for their elements. -/
theorem array_iff : σ.SameShape (.array id) τ w ↔ ∃ id', w = .array id' ∧
    List.Forall₂ (fun u x => σ.SameShape u τ x) (σ.elements id) (τ.elements id') := by
  constructor
  · intro h
    cases w with
    | array id' => exact ⟨id', rfl, of_map fun depth => Shape.array.inj (h (depth + 1))⟩
    | _ => exact nomatch h 0
  · rintro ⟨id', rfl, helements⟩ depth
    cases depth with
    | zero => rfl
    | succ depth => exact congrArg Shape.array (map_eq helements depth)

end SameShape

/-- An array is filled for its elements. -/
theorem filled_array : σ.Filled (.array id) ↔
    ∀ u ∈ σ.elements id, u.isMissing = false ∧ σ.Filled u := by
  constructor
  · exact fun h u hu =>
      ⟨h id (.self _) u hu, fun id' hinside => h id' (.element hu hinside)⟩
  · intro h id' hinside
    cases hinside with
    | self => exact fun u hu => (h u hu).1
    | element member deeper => exact (h _ member).2 id' deeper

theorem filled_number (n : Number) : σ.Filled (.number n) := fun _ hinside => nomatch hinside

end Store

namespace Ty

variable {t : Ty} {σ τ : Store} {v w : Value}

/-- Values of the same shape belong to the same types. -/
theorem check_shape (h : σ.SameShape v τ w) : t.check σ v = .ok () ↔ t.check τ w = .ok () := by
  induction t using element_induction generalizing v w with
  | h t ih =>
    by_cases harray : ∃ id, v = .array id
    · obtain ⟨id, rfl⟩ := harray
      obtain ⟨id', rfl, helements⟩ := Store.SameShape.array_iff.mp h
      cases helement : t.element? with
      | none =>
        cases t with
        | array element size => exact nomatch helement
        | vararg element => exact nomatch helement
        | prim p => cases p <;> exact Iff.rfl
        | _ => exact Iff.rfl
      | some element =>
        rw [check_array helement, check_array helement, helements.length_eq]
        exact and_congr_right fun _ => or_congr_right
          (forall_mem_iff_of_forall₂ helements fun hux => ih element helement hux)
    · obtain rfl : w = v := h.scalar fun id hid => harray ⟨id, hid⟩
      cases helement : t.element? with
      | none => rw [check_scalar (τ := σ) helement, check_scalar (τ := σ) helement]
      | some element =>
        exact ⟨fun hc => absurd (check_is_array helement hc) harray,
          fun hc => absurd (check_is_array helement hc) harray⟩

end Ty

end BasicScript
