import BasicScript.Proofs.Frame.Growth
import BasicScript.Types.Cast
import BasicScript.Types.Coercion

/-! # Storage taken by conversions

Coercion and casts never write to storage that exists. All they do to the
store is to add arrays.
-/

namespace BasicScript

/-- The same store, apart from further arrays. -/
structure Store.Adds (σ σ' : Store) : Prop where
  cells : σ'.cells = σ.cells
  arrays : ∃ new, σ'.arrays = σ.arrays ++ new

namespace Store.Adds

variable {σ σ' σ'' : Store}

theorem refl (σ : Store) : σ.Adds σ := ⟨rfl, #[], (Array.append_empty).symm⟩

theorem trans (h : σ.Adds σ') (h' : σ'.Adds σ'') : σ.Adds σ'' := by
  obtain ⟨new, hnew⟩ := h.arrays
  obtain ⟨new', hnew'⟩ := h'.arrays
  exact ⟨h'.cells.trans h.cells, new ++ new', by rw [hnew', hnew, Array.append_assoc]⟩

theorem newArray (σ : Store) (element : Ty) (values : List Value) :
    σ.Adds (σ.newArray element values).2 :=
  ⟨rfl, #[⟨element, values.toArray⟩], Array.push_eq_append⟩

theorem size_le (h : σ.Adds σ') : σ.arrays.size ≤ σ'.arrays.size := by
  obtain ⟨new, hnew⟩ := h.arrays
  rw [hnew, Array.size_append]
  exact Nat.le_add_right _ _

theorem getElem? (h : σ.Adds σ') {i : Nat} (hi : i < σ.arrays.size) :
    σ'.arrays[i]? = σ.arrays[i]? := by
  obtain ⟨new, hnew⟩ := h.arrays
  rw [hnew, Array.getElem?_append_left hi]

theorem block (h : σ.Adds σ') {id : ArrayId} (hid : id.index < σ.arrays.size) :
    σ'.block id = σ.block id := by
  simp only [Store.block, h.getElem? hid]

theorem elements (h : σ.Adds σ') {id : ArrayId} (hid : id.index < σ.arrays.size) :
    σ'.elements id = σ.elements id := by
  simp only [Store.elements, h.block hid]

theorem cell (h : σ.Adds σ') (id : CellId) : σ'.cell id = σ.cell id := by
  simp only [Store.cell, h.cells]

theorem grows (h : σ.Adds σ') : σ.Grows σ' where
  cells := h.cells ▸ .refl Cell.Keeps.refl _
  arrays i b hb :=
    ⟨b, by rw [h.getElem? (Array.getElem?_eq_some_iff.mp hb).1, hb], .refl b⟩

end Store.Adds

theorem Value.eq_empty {v : Value} (h : v.isMissing = true) : v = .empty := by
  cases v with
  | empty => rfl
  | _ => exact nomatch h

theorem Value.isMissing_eq_false {v : Value} (h : v ≠ .empty) : v.isMissing = false := by
  cases v with
  | empty => exact absurd rfl h
  | _ => rfl

theorem Store.block_newArray (σ : Store) (element : Ty) (values : List Value) :
    (σ.newArray element values).2.block (σ.newArray element values).1 =
      ⟨element, values.toArray⟩ := by
  simp only [Store.newArray, Store.block, Array.getElem?_push_size, Option.getD_some]

theorem Store.elements_newArray (σ : Store) (element : Ty) (values : List Value) :
    (σ.newArray element values).2.elements (σ.newArray element values).1 = values := by
  simp only [Store.elements, Store.block_newArray]

namespace Coerced

/-- A coercion that does not fail leaves the value alone or makes another one. -/
theorem result?_some {c : Coerced} {σ σ' : Store} {v w : Value} :
    c.result? σ v = some (w, σ') ↔ c = .same ∧ w = v ∧ σ' = σ ∨ c = .changed w σ' := by
  cases c with
  | same =>
    simp only [result?, Option.some.injEq, Prod.mk.injEq, true_and, reduceCtorEq, or_false]
    exact and_congr eq_comm eq_comm
  | changed u τ =>
    simp only [result?, Option.some.injEq, Prod.mk.injEq, reduceCtorEq, false_and, false_or,
      changed.injEq]
  | failed => simp only [result?, reduceCtorEq, false_and, or_self]

/-- Induction along the values of a sequence that is coerced from left to right. -/
theorem each_induction {f : Store → Value → Coerced}
    {P : Store → List Value → List Value → Store → Prop} (hnil : ∀ σ, P σ [] [] σ)
    (hcons : ∀ σ v w σ₁ vs ws σ', (f σ v).result? σ v = some (w, σ₁) → P σ₁ vs ws σ' →
      P σ (v :: vs) (w :: ws) σ')
    {σ σ' : Store} {vs ws : List Value} {moved : Bool}
    (h : each f σ vs = some (moved, ws, σ')) : P σ vs ws σ' := by
  induction vs generalizing σ moved ws with
  | nil =>
    simp only [each, Option.some.injEq, Prod.mk.injEq] at h
    obtain ⟨-, rfl, rfl⟩ := h
    exact hnil σ
  | cons v vs ih =>
    unfold each at h
    cases hv : f σ v with
    | failed => simp [hv] at h
    | same =>
      simp only [hv] at h
      split at h
      · exact nomatch h
      · next rest =>
        simp only [Option.some.injEq, Prod.mk.injEq] at h
        obtain ⟨-, rfl, rfl⟩ := h
        exact hcons σ v v σ vs _ _ (by rw [hv]; rfl) (ih rest)
    | changed w σ₁ =>
      simp only [hv] at h
      split at h
      · exact nomatch h
      · next rest =>
        simp only [Option.some.injEq, Prod.mk.injEq] at h
        obtain ⟨-, rfl, rfl⟩ := h
        exact hcons σ v w σ₁ vs _ _ (by rw [hv]; rfl) (ih rest)

theorem each_cons {f : Store → Value → Coerced} {σ σ₁ σ' : Store} {v w : Value}
    {vs ws : List Value} {moved : Bool} (hv : (f σ v).result? σ v = some (w, σ₁))
    (hrest : each f σ₁ vs = some (moved, ws, σ')) :
    ∃ moved', each f σ (v :: vs) = some (moved', w :: ws, σ') := by
  rcases result?_some.mp hv with ⟨hsame, rfl, rfl⟩ | hchanged
  · exact ⟨moved, by simp only [each, hsame, hrest]⟩
  · exact ⟨true, by simp only [each, hchanged, hrest]⟩

theorem each_length {f : Store → Value → Coerced} {σ σ' : Store} {vs ws : List Value}
    {moved : Bool} (h : each f σ vs = some (moved, ws, σ')) : ws.length = vs.length :=
  each_induction (P := fun _ vs ws _ => ws.length = vs.length) (fun _ => rfl)
    (fun _ _ _ _ _ _ _ _ h => congrArg (· + 1) h) h

theorem each_unmoved {f : Store → Value → Coerced} {σ σ' : Store} {vs ws : List Value}
    (h : each f σ vs = some (false, ws, σ')) : ws = vs ∧ σ' = σ := by
  induction vs generalizing σ ws with
  | nil =>
    simp only [each, Option.some.injEq, Prod.mk.injEq, true_and] at h
    exact ⟨h.1.symm, h.2.symm⟩
  | cons v vs ih =>
    unfold each at h
    cases hv : f σ v with
    | failed => simp [hv] at h
    | same =>
      simp only [hv] at h
      split at h
      · exact nomatch h
      · next rest =>
        simp only [Option.some.injEq, Prod.mk.injEq] at h
        obtain ⟨rfl, rfl, rfl⟩ := h
        obtain ⟨rfl, rfl⟩ := ih rest
        exact ⟨rfl, rfl⟩
    | changed w σ₁ =>
      simp only [hv] at h
      split at h
      · exact nomatch h
      · exact nomatch (Prod.mk.inj (Option.some.inj h)).1

end Coerced

namespace Ty

/-- What coercion of the elements of an array can end in, other than the same array. -/
theorem coerceElements_changed {element : Ty} {f : Store → Value → Coerced} {σ σ' : Store}
    {id : ArrayId} {w : Value} (h : coerceElements element f σ id = .changed w σ') :
    element.acceptsAnything = false ∧ ∃ moved ws σ₁,
      Coerced.each f σ (σ.elements id) = some (moved, ws, σ₁) ∧
        w = .array (σ₁.newArray element ws).1 ∧ σ' = (σ₁.newArray element ws).2 := by
  unfold coerceElements at h
  split at h
  · exact nomatch h
  · next hany =>
    refine ⟨by simpa using hany, ?_⟩
    split at h
    · exact nomatch h
    · next moved ws σ₁ heach =>
      split at h
      · simp only [Coerced.changed.injEq] at h
        exact ⟨moved, ws, σ₁, heach, h.1.symm, h.2.symm⟩
      · exact nomatch h

theorem coerceElements_same {element : Ty} {f : Store → Value → Coerced} {σ : Store}
    {id : ArrayId} (h : coerceElements element f σ id = .same) :
    element.acceptsAnything = true ∨ (σ.block id).element = element ∧
      ∃ ws σ', Coerced.each f σ (σ.elements id) = some (false, ws, σ') := by
  unfold coerceElements at h
  split at h
  · next hany => exact .inl hany
  · split at h
    · exact nomatch h
    · next moved ws σ' heach =>
      split at h
      · exact nomatch h
      · next hmoved =>
        rw [Bool.or_eq_true, not_or, decide_eq_true_eq, Classical.not_not,
          Bool.not_eq_true] at hmoved
        exact .inr ⟨hmoved.2, ws, σ', hmoved.1 ▸ heach⟩

theorem coerceElements_failed {element : Ty} {f : Store → Value → Coerced} {σ : Store}
    {id : ArrayId} : coerceElements element f σ id = .failed ↔
      element.acceptsAnything = false ∧ Coerced.each f σ (σ.elements id) = none := by
  unfold coerceElements
  cases element.acceptsAnything with
  | true => simp only [if_true, reduceCtorEq, Bool.true_eq_false, false_and]
  | false =>
    rw [if_neg Bool.false_ne_true, eq_self_iff_true, true_and]
    cases Coerced.each f σ (σ.elements id) with
    | none => simp only
    | some p =>
      simp only [reduceCtorEq, iff_false]
      split <;> exact fun h => nomatch h

theorem element_induction {P : Ty → Prop}
    (h : ∀ t, (∀ element, t.element? = some element → P element) → P t) (t : Ty) : P t := by
  induction t with
  | array element size ih => exact h _ fun e he => by cases he; exact ih
  | vararg element ih => exact h _ fun e he => by cases he; exact ih
  | inferred => exact h _ fun e he => nomatch he
  | prim p => exact h _ fun e he => nomatch he
  | data name => exact h _ fun e he => nomatch he
  | enum name => exact h _ fun e he => nomatch he

theorem coerce_array {t element : Ty} (h : t.element? = some element) (σ : Store)
    (id : ArrayId) : t.coerce σ (.array id) = coerceElements element element.coerce σ id := by
  cases t <;> cases h <;> rfl

theorem coerceNumber_changed {k : NumericKind} {σ σ' : Store} {v w : Value}
    (h : coerceNumber k σ v = .changed w σ') : σ' = σ ∧ ∃ n, w = .number n ∧ n.kind = k := by
  unfold coerceNumber at h
  split at h
  · next n =>
    split at h
    · exact nomatch h
    · split at h
      · next m hm =>
        simp only [Coerced.changed.injEq] at h
        rw [Number.widen?, Option.ite_none_right_eq_some] at hm
        exact ⟨h.2.symm, m, h.1.symm, Option.some.inj hm.2 ▸ Number.kind_convert n k⟩
      · exact nomatch h
  · split at h
    · simp only [Coerced.changed.injEq] at h
      exact ⟨h.2.symm, _, h.1.symm, Number.kind_ofInt _ _⟩
    · simp only [Coerced.changed.injEq] at h
      exact ⟨h.2.symm, _, h.1.symm, Number.kind_ofInt _ _⟩
    · exact nomatch h
  · exact nomatch h

theorem coerce_changed {t : Ty} {σ σ' : Store} {v w : Value}
    (h : t.coerce σ v = .changed w σ') :
    (σ' = σ ∧ ∃ n, w = .number n ∧ t.kind? = some n.kind) ∨ ∃ element id,
      t.element? = some element ∧ v = .array id ∧
        coerceElements element element.coerce σ id = .changed w σ' := by
  unfold coerce at h
  split at h
  · split at h
    · next hk =>
      obtain ⟨hσ, n, hw, hn⟩ := coerceNumber_changed h
      exact .inl ⟨hσ, n, hw, by rw [kind?, hk, hn]⟩
    · exact nomatch h
  · exact .inr ⟨_, _, rfl, rfl, h⟩
  · exact .inr ⟨_, _, rfl, rfl, h⟩
  · exact nomatch h

theorem coerce_adds {t : Ty} {σ σ' : Store} {v w : Value}
    (h : (t.coerce σ v).result? σ v = some (w, σ')) : σ.Adds σ' := by
  induction t using element_induction generalizing σ σ' v w with
  | h t ih =>
    rcases Coerced.result?_some.mp h with ⟨-, -, rfl⟩ | hc
    · exact .refl _
    · rcases coerce_changed hc with ⟨rfl, -⟩ | ⟨element, id, helement, -, hchanged⟩
      · exact .refl _
      · obtain ⟨-, moved, ws, σ₁, heach, -, rfl⟩ := coerceElements_changed hchanged
        refine Store.Adds.trans ?_ (.newArray σ₁ element ws)
        exact Coerced.each_induction (P := fun σ _ _ σ' => σ.Adds σ') .refl
          (fun _ _ _ _ _ _ _ hv h => (ih _ helement hv).trans h) heach

/-- What passes a typed place is the outcome of a coercion that belongs to the type. -/
theorem conform_ok {t : Ty} {σ σ' : Store} {v w : Value} :
    t.conform σ v = .ok (w, σ') ↔
      (t.coerce σ v).result? σ v = some (w, σ') ∧ t.check σ' w = .ok () := by
  unfold conform
  cases hresult : (t.coerce σ v).result? σ v with
  | none => simp only [reduceCtorEq, false_and]
  | some p =>
    obtain ⟨w₁, σ₁⟩ := p
    cases hcheck : t.check σ₁ w₁ with
    | ok u =>
      simp only [hcheck, Except.ok.injEq, Option.some.injEq]
      exact ⟨fun h => ⟨h, by cases h; exact hcheck⟩, And.left⟩
    | error m =>
      simp only [hcheck, reduceCtorEq, false_iff, Option.some.injEq]
      rintro ⟨h, hok⟩
      cases h
      rw [hcheck] at hok
      exact nomatch hok

theorem conform_adds {t : Ty} {σ σ' : Store} {v w : Value}
    (h : t.conform σ v = .ok (w, σ')) : σ.Adds σ' := coerce_adds (conform_ok.mp h).1

theorem check_empty (t : Ty) (σ : Store) : t.check σ .empty = .error .type := by
  cases t <;> rfl

/-- The missing value never passes a typed place. -/
theorem conform_present {t : Ty} {σ σ' : Store} {v w : Value}
    (h : t.conform σ v = .ok (w, σ')) : w.isMissing = false := by
  have hcheck := (conform_ok.mp h).2
  cases w with
  | empty => rw [check_empty] at hcheck; exact nomatch hcheck
  | _ => rfl

/-- Induction along the values of a sequence that is cast from left to right. -/
theorem castEach_induction {f : Store → Value → Option (Value × Store)}
    {P : Store → List Value → List Value → Store → Prop} (hnil : ∀ σ, P σ [] [] σ)
    (hcons : ∀ σ v w σ₁ vs ws σ', f σ v = some (w, σ₁) → P σ₁ vs ws σ' →
      P σ (v :: vs) (w :: ws) σ')
    {σ σ' : Store} {vs ws : List Value} (h : castEach f σ vs = some (ws, σ')) :
    P σ vs ws σ' := by
  induction vs generalizing σ ws with
  | nil =>
    simp only [castEach, Option.some.injEq, Prod.mk.injEq] at h
    obtain ⟨rfl, rfl⟩ := h
    exact hnil σ
  | cons v vs ih =>
    unfold castEach at h
    split at h
    · exact nomatch h
    · next w σ₁ hv =>
      split at h
      · exact nomatch h
      · next ws' σ₂ hrest =>
        simp only [Option.some.injEq, Prod.mk.injEq] at h
        obtain ⟨rfl, rfl⟩ := h
        exact hcons σ v w σ₁ vs _ _ hv (ih hrest)

theorem castElements_some {t element : Ty} {f : Store → Value → Option (Value × Store)}
    {σ σ' : Store} {vs : List Value} {w : Value}
    (h : castElements t element f σ vs = some (w, σ')) : ∃ ws σ₁,
      castEach f σ vs = some (ws, σ₁) ∧ w = .array (σ₁.newArray element ws).1 ∧
        σ' = (σ₁.newArray element ws).2 ∧ t.admits σ' w = true := by
  unfold castElements at h
  split at h
  · exact nomatch h
  · next ws σ₁ heach =>
    simp only [Option.ite_none_right_eq_some, Option.some.injEq, Prod.mk.injEq] at h
    obtain ⟨hadmits, rfl, rfl⟩ := h
    exact ⟨ws, σ₁, heach, rfl, rfl, hadmits⟩

/-- How a cast comes to its result: by a keyword, through the elements of a new array, or by
membership alone. -/
theorem cast_some {t : Ty} {σ σ' : Store} {v w : Value} (h : t.cast σ v = some (w, σ')) :
    (∃ p, t = .prim p ∧ castPrimitive? σ p v = some w ∧ v.isMissing = false ∧ σ' = σ) ∨
    (∃ element vs, t.element? = some element ∧ σ.elements? v = some vs ∧
      castElements t element element.cast σ vs = some (w, σ')) ∨
    (w = v ∧ σ' = σ ∧ t.admits σ v = true ∧ t.element? = none) := by
  unfold cast at h
  split at h
  · exact nomatch h
  · next hv =>
    simp only [Option.map_eq_some_iff, Prod.mk.injEq] at h
    obtain ⟨w', hw, rfl, rfl⟩ := h
    exact .inl ⟨_, rfl, hw, Value.isMissing_eq_false hv, rfl⟩
  · split at h
    · exact .inr (.inl ⟨_, _, rfl, rfl, h⟩)
    · exact .inr (.inl ⟨_, _, rfl, rfl, h⟩)
    · exact nomatch h
  · split at h
    · exact .inr (.inl ⟨_, _, rfl, rfl, h⟩)
    · exact .inr (.inl ⟨_, _, rfl, rfl, h⟩)
    · exact nomatch h
  · next hprim harray hvararg _ =>
    split at h
    · next hadmits =>
      simp only [Option.some.injEq, Prod.mk.injEq] at h
      refine .inr (.inr ⟨h.1.symm, h.2.symm, hadmits, ?_⟩)
      cases t with
      | array element size => exact (harray _ _ rfl).elim
      | vararg element => exact (hvararg _ rfl).elim
      | _ => rfl
    · exact nomatch h

theorem cast_adds {t : Ty} {σ σ' : Store} {v w : Value} (h : t.cast σ v = some (w, σ')) :
    σ.Adds σ' := by
  induction t using element_induction generalizing σ σ' v w with
  | h t ih =>
    rcases cast_some h with ⟨p, -, -, -, rfl⟩ | ⟨element, vs, helement, -, hcast⟩ | ⟨-, rfl, -⟩
    · exact .refl _
    · obtain ⟨ws, σ₁, heach, -, rfl, -⟩ := castElements_some hcast
      refine Store.Adds.trans ?_ (.newArray σ₁ element ws)
      exact castEach_induction (P := fun σ _ _ σ' => σ.Adds σ') .refl
        (fun _ _ _ _ _ _ _ hc h => (ih _ helement hc).trans h) heach
    · exact .refl _

end Ty

end BasicScript
