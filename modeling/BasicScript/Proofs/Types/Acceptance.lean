import BasicScript.Proofs.Types.Fitting

/-! # Acceptance

Whether a typed place accepts a value depends only on the arrays that the
value leads to. Arrays that are added to the store later make no difference,
so a value that was tried on several places is judged by each as if it had
been the first.
-/

namespace BasicScript

namespace Store

/-- A value whose array, if it is one, is in the store. -/
def Within (σ : Store) : Value → Prop
  | .array id => id.index < σ.arrays.size
  | _ => True

/-- A store in which no array leads out of it. -/
def Closed (σ : Store) : Prop :=
  ∀ (i : Nat) (b : ArrayBlock), σ.arrays[i]? = some b → ∀ v ∈ b.values.toList, σ.Within v

variable {σ σ' : Store} {v : Value}

theorem Within.adds (h : σ.Within v) (hadds : σ.Adds σ') : σ'.Within v := by
  cases v with
  | array id => exact Nat.lt_of_lt_of_le h hadds.size_le
  | _ => trivial

theorem Closed.elements (h : σ.Closed) (id : ArrayId) : ∀ v ∈ σ.elements id, σ.Within v := by
  intro v hv
  unfold Store.elements at hv
  cases hb : σ.arrays[id.index]? with
  | none => simp only [Store.block, hb, Option.getD_none, List.not_mem_nil] at hv
  | some b =>
    rw [Store.block, hb, Option.getD_some] at hv
    exact h _ b hb v hv

theorem Closed.fresh : Store.fresh.Closed := fun _ _ hb => by simp [Store.fresh] at hb

theorem Closed.newArray (h : σ.Closed) {element : Ty} {vs : List Value}
    (hvs : ∀ v ∈ vs, σ.Within v) : (σ.newArray element vs).2.Closed := by
  intro i b hb v hv
  have hadds := Adds.newArray σ element vs
  have hb' : (σ.arrays.push ⟨element, vs.toArray⟩)[i]? = some b := hb
  rw [Array.getElem?_push] at hb'
  split at hb'
  · cases hb'
    exact (hvs v hv).adds hadds
  · exact (h i b hb' v hv).adds hadds

theorem Holds.within {declared : DataDecl → Prop} (h : σ.Holds declared v) : σ.Within v := by
  cases v with
  | array id => exact h
  | _ => trivial

theorem Typed.closed {declared : DataDecl → Prop} (h : σ.Typed declared) : σ.Closed :=
  fun i b hb v hv => (h.arrays i b hb v hv).holds.within

end Store

namespace Ty

variable {t element : Ty} {σ σ' σ₁ σ₂ : Store} {v w : Value}

/-- Whether a place of the type takes a value. -/
def Accepts (t : Ty) (σ : Store) (v : Value) : Prop := ∃ w σ', t.conform σ v = .ok (w, σ')

/-- Nothing becomes of the missing value. -/
theorem not_accepts_empty (t : Ty) (σ : Store) : ¬t.Accepts σ .empty := by
  rintro ⟨w, σ', h⟩
  have hsame : t.coerce σ .empty = .same := by
    cases t with
    | prim p =>
      simp only [coerce]
      cases p.kind? <;> rfl
    | _ => rfl
  rw [conform, hsame] at h
  simp only [Coerced.result?, check_empty, reduceCtorEq] at h

/-- Membership of a value is settled by the arrays that are there. -/
theorem check_adds (hadds : σ.Adds σ') (hσ : σ.Closed) (hv : σ.Within v) :
    t.check σ v = .ok () ↔ t.check σ' v = .ok () := by
  induction t using element_induction generalizing v with
  | h t ih =>
    cases helement : t.element? with
    | none => rw [check_scalar (τ := σ) helement, check_scalar (τ := σ) helement]
    | some element =>
      cases v with
      | array id =>
        rw [check_array helement, check_array helement, hadds.elements hv]
        refine and_congr_right fun _ => or_congr_right (forall₂_congr fun w hw => ?_)
        exact ih element helement (hσ.elements id w hw)
      | _ =>
        refine ⟨fun h => ?_, fun h => ?_⟩ <;>
          exact (nomatch (check_is_array helement h).choose_spec)

theorem coerce_closed (h : (t.coerce σ v).result? σ v = some (w, σ')) (hσ : σ.Closed)
    (hv : σ.Within v) : σ'.Closed ∧ σ'.Within w := by
  induction t using element_induction generalizing σ σ' v w with
  | h t ih =>
    rcases Coerced.result?_some.mp h with ⟨-, rfl, rfl⟩ | hc
    · exact ⟨hσ, hv⟩
    · rcases coerce_changed hc with ⟨rfl, n, rfl, -⟩ | ⟨element, id, helement, rfl, hchanged⟩
      · exact ⟨hσ, trivial⟩
      · obtain ⟨-, moved, ws, σ₁, heach, rfl, rfl⟩ := coerceElements_changed hchanged
        have helems : σ.Closed → (∀ v ∈ σ.elements id, σ.Within v) →
            σ₁.Closed ∧ (∀ w ∈ ws, σ₁.Within w) ∧ σ.Adds σ₁ := by
          refine Coerced.each_induction (P := fun σ vs ws σ' => σ.Closed →
            (∀ v ∈ vs, σ.Within v) → σ'.Closed ∧ (∀ w ∈ ws, σ'.Within w) ∧ σ.Adds σ')
            ?_ ?_ heach
          · exact fun σ hσ _ => ⟨hσ, (fun _ hw => nomatch hw), .refl σ⟩
          · intro σ v w σ₀ vs ws σ' hv hrest hσ hvs
            rw [List.forall_mem_cons] at hvs
            have hadds := coerce_adds hv
            obtain ⟨hσ₀, hw⟩ := ih element helement hv hσ hvs.1
            obtain ⟨hσ', hws, hadds'⟩ := hrest hσ₀ fun v hv => (hvs.2 v hv).adds hadds
            exact ⟨hσ', List.forall_mem_cons.mpr ⟨hw.adds hadds', hws⟩, hadds.trans hadds'⟩
        obtain ⟨hσ₁, hws, -⟩ := helems hσ (hσ.elements id)
        exact ⟨hσ₁.newArray hws, Store.newArray_bound σ₁ element ws⟩

/-- Apart from arrays, coercion does the same in every store. -/
theorem coerce_scalar (ht : t.element? = none)
    (h : (t.coerce σ v).result? σ v = some (w, σ₁)) :
    σ₁ = σ ∧ (t.coerce σ' v).result? σ' v = some (w, σ') := by
  cases t with
  | prim p =>
    unfold coerce at h ⊢
    cases hk : p.kind? with
    | none =>
      simp only [hk, Coerced.result?, Option.some.injEq, Prod.mk.injEq] at h ⊢
      exact ⟨h.2.symm, h.1, trivial⟩
    | some k =>
      simp only [hk] at h ⊢
      unfold coerceNumber at h ⊢
      split at h
      · split at h
        · simp_all [Coerced.result?]
        · split at h <;> simp_all [Coerced.result?]
      · split at h <;> simp_all [Coerced.result?]
      · simp_all [Coerced.result?]
  | array e size => cases ht
  | vararg e => cases ht
  | _ =>
    simp only [coerce, Coerced.result?, Option.some.injEq, Prod.mk.injEq] at h ⊢
    exact ⟨h.2.symm, h.1, trivial⟩

theorem accepts_scalar (ht : t.element? = none) (h : t.Accepts σ v) : t.Accepts σ' v := by
  obtain ⟨w, σ₁, hok⟩ := h
  obtain ⟨hresult, hcheck⟩ := conform_ok.mp hok
  refine ⟨w, σ', conform_ok.mpr ⟨(coerce_scalar ht hresult).2, ?_⟩⟩
  exact (check_scalar (τ := σ') ht).mpr ((check_scalar ht).mp hcheck)

theorem accepts_is_array (ht : t.element? = some element) (h : t.Accepts σ v) :
    ∃ id, v = .array id := by
  obtain ⟨w, σ', hok⟩ := h
  obtain ⟨hresult, hcheck⟩ := conform_ok.mp hok
  obtain ⟨id, rfl⟩ := check_is_array ht hcheck
  rcases Coerced.result?_some.mp hresult with ⟨-, hv, -⟩ | hc
  · exact ⟨id, hv.symm⟩
  · rcases coerce_changed hc with ⟨-, n, hn, -⟩ | ⟨_, id', -, hv, -⟩
    · exact nomatch hn
    · exact ⟨id', hv⟩

/-- The type judges alike in a store and in one with further arrays. -/
def JudgesAlike (t : Ty) : Prop :=
  ∀ {σ σ' : Store} {v : Value}, σ.Adds σ' → σ.Closed → σ'.Closed → σ.Within v →
    (t.Accepts σ v ↔ t.Accepts σ' v)

/-- Values that are accepted one by one are accepted in a row. -/
theorem each_of_accepts (he : element.JudgesAlike) {vs : List Value} (hσ : σ.Closed)
    (hvs : ∀ v ∈ vs, σ.Within v) (h : ∀ v ∈ vs, element.Accepts σ v) :
    ∃ moved ws σ', Coerced.each element.coerce σ vs = some (moved, ws, σ') ∧ σ.Adds σ' ∧
      σ'.Closed ∧ ∀ w ∈ ws, σ'.Within w ∧ element.check σ' w = .ok () := by
  induction vs generalizing σ with
  | nil => exact ⟨false, [], σ, rfl, .refl σ, hσ, fun _ hw => nomatch hw⟩
  | cons v vs ih =>
    rw [List.forall_mem_cons] at hvs h
    obtain ⟨w, σ₁, hok⟩ := h.1
    obtain ⟨hresult, hcheck⟩ := conform_ok.mp hok
    have hadds := coerce_adds hresult
    obtain ⟨hσ₁, hw⟩ := coerce_closed hresult hσ hvs.1
    obtain ⟨moved, ws, σ', heach, hadds', hσ', hws⟩ := ih hσ₁
      (fun v hv => (hvs.2 v hv).adds hadds)
      (fun v hv => (he hadds hσ hσ₁ (hvs.2 v hv)).mp (h.2 v hv))
    obtain ⟨moved', hcons⟩ := Coerced.each_cons hresult heach
    exact ⟨moved', w :: ws, σ', hcons, hadds.trans hadds', hσ', List.forall_mem_cons.mpr
      ⟨⟨hw.adds hadds', (check_adds hadds' hσ₁ hw).mp hcheck⟩, hws⟩⟩

/-- Values that are accepted in a row are accepted one by one. -/
theorem accepts_of_each (he : element.JudgesAlike) {vs ws : List Value} {moved : Bool}
    (h : Coerced.each element.coerce σ vs = some (moved, ws, σ')) (hadds : σ'.Adds σ₂)
    (hchecks : ∀ w ∈ ws, element.check σ₂ w = .ok ()) (hσ : σ.Closed)
    (hvs : ∀ v ∈ vs, σ.Within v) : ∀ v ∈ vs, element.Accepts σ v := by
  have hall : σ.Adds σ' ∧ (σ'.Adds σ₂ → (∀ w ∈ ws, element.check σ₂ w = .ok ()) →
      σ.Closed → (∀ v ∈ vs, σ.Within v) → ∀ v ∈ vs, element.Accepts σ v) := by
    refine Coerced.each_induction (P := fun σ vs ws σ' => σ.Adds σ' ∧ (σ'.Adds σ₂ →
      (∀ w ∈ ws, element.check σ₂ w = .ok ()) → σ.Closed → (∀ v ∈ vs, σ.Within v) →
        ∀ v ∈ vs, element.Accepts σ v)) ?_ ?_ h
    · exact fun σ => ⟨.refl σ, fun _ _ _ _ _ hv => nomatch hv⟩
    · rintro σ v w σ₁ vs ws σ' hv ⟨hadds', hrest⟩
      have hadds₁ := coerce_adds hv
      refine ⟨hadds₁.trans hadds', fun hlater hchecks hσ hvs => ?_⟩
      rw [List.forall_mem_cons] at hchecks hvs ⊢
      obtain ⟨hσ₁, hw⟩ := coerce_closed hv hσ hvs.1
      refine ⟨⟨w, σ₁, conform_ok.mpr ⟨hv, ?_⟩⟩, fun u hu => ?_⟩
      · exact (check_adds (hadds'.trans hlater) hσ₁ hw).mpr hchecks.1
      · have hu₁ := hrest hlater hchecks.2 hσ₁ (fun v hv => (hvs.2 v hv).adds hadds₁) u hu
        exact (he hadds₁ hσ hσ₁ (hvs.2 u hu)).mpr hu₁
  exact hall.2 hadds hchecks hσ hvs

theorem Accepts.elements (ht : t.element? = some element) (he : element.JudgesAlike)
    {id : ArrayId} (hσ : σ.Closed) (h : t.Accepts σ (.array id)) :
    (∀ n, t.size? = some n → (σ.elements id).length = n) ∧
      (element.acceptsAnything = true ∨ ∀ w ∈ σ.elements id, element.Accepts σ w) := by
  obtain ⟨w, σ', hok⟩ := h
  obtain ⟨hresult, hcheck⟩ := conform_ok.mp hok
  rcases Coerced.result?_some.mp hresult with ⟨hc, rfl, rfl⟩ | hc
  · obtain ⟨hsize, hwithin⟩ := (check_array ht _ id).mp hcheck
    rw [coerce_array ht] at hc
    refine ⟨hsize, ?_⟩
    rcases coerceElements_same hc with hany | ⟨-, ws, σ₁, heach⟩
    · exact .inl hany
    · refine hwithin.imp_right fun hchecks => ?_
      obtain ⟨rfl, rfl⟩ := Coerced.each_unmoved heach
      exact accepts_of_each he heach (.refl _) hchecks hσ (hσ.elements id)
  · rw [coerce_array ht] at hc
    obtain ⟨hany, moved, ws, σ₁, heach, rfl, rfl⟩ := coerceElements_changed hc
    obtain ⟨hsize, hwithin⟩ := (check_array ht _ _).mp hcheck
    rw [Store.elements_newArray] at hsize hwithin
    rw [Coerced.each_length heach] at hsize
    have hchecks := hwithin.resolve_left (by rw [hany]; exact Bool.false_ne_true)
    exact ⟨hsize, .inr (accepts_of_each he heach (.newArray σ₁ element ws) hchecks hσ
      (hσ.elements id))⟩

theorem Accepts.of_elements (ht : t.element? = some element) (he : element.JudgesAlike)
    {id : ArrayId} (hσ : σ.Closed) (hsize : ∀ n, t.size? = some n → (σ.elements id).length = n)
    (hwithin : element.acceptsAnything = true ∨ ∀ w ∈ σ.elements id, element.Accepts σ w) :
    t.Accepts σ (.array id) := by
  by_cases hany : element.acceptsAnything = true
  · refine ⟨.array id, σ, conform_ok.mpr ⟨?_, (check_array ht σ id).mpr ⟨hsize, .inl hany⟩⟩⟩
    rw [coerce_array ht, coerceElements, if_pos hany]
    rfl
  · obtain ⟨moved, ws, σ₁, heach, -, hσ₁, hws⟩ :=
      each_of_accepts he hσ (hσ.elements id) (hwithin.resolve_left hany)
    cases hmoved : (moved || decide ((σ.block id).element ≠ element)) with
    | true =>
      refine ⟨.array (σ₁.newArray element ws).1, (σ₁.newArray element ws).2,
        conform_ok.mpr ⟨?_, (check_array ht _ _).mpr ⟨?_, .inr ?_⟩⟩⟩
      · rw [coerce_array ht, coerceElements, if_neg hany, heach]
        simp only [hmoved, if_true]
        rfl
      · rw [Store.elements_newArray, Coerced.each_length heach]
        exact hsize
      · rw [Store.elements_newArray]
        exact fun w hw => (check_adds (.newArray σ₁ element ws) hσ₁ (hws w hw).1).mp (hws w hw).2
    | false =>
      have hsame := Bool.or_eq_false_iff.mp hmoved
      obtain ⟨rfl, rfl⟩ := Coerced.each_unmoved (hsame.1 ▸ heach)
      refine ⟨.array id, _, conform_ok.mpr ⟨?_, (check_array ht _ id).mpr
        ⟨hsize, .inr fun w hw => (hws w hw).2⟩⟩⟩
      rw [coerce_array ht, coerceElements, if_neg hany, heach]
      simp only [hmoved, Bool.false_eq_true, if_false]
      rfl

/-- An array is accepted for its length and its elements. -/
theorem accepts_array (ht : t.element? = some element) (he : element.JudgesAlike)
    {id : ArrayId} (hσ : σ.Closed) :
    t.Accepts σ (.array id) ↔ (∀ n, t.size? = some n → (σ.elements id).length = n) ∧
      (element.acceptsAnything = true ∨ ∀ w ∈ σ.elements id, element.Accepts σ w) :=
  ⟨Accepts.elements ht he hσ, fun h => .of_elements ht he hσ h.1 h.2⟩

/-- Further arrays change no judgement. -/
theorem accepts_adds (t : Ty) : t.JudgesAlike := by
  induction t using element_induction with
  | h t ih =>
    intro σ σ' v hadds hσ hσ' hv
    cases ht : t.element? with
    | none => exact ⟨accepts_scalar ht, accepts_scalar ht⟩
    | some element =>
      cases v with
      | array id =>
        rw [accepts_array ht (ih element ht) hσ, accepts_array ht (ih element ht) hσ',
          hadds.elements hv]
        refine and_congr_right fun _ => or_congr_right (forall₂_congr fun w hw => ?_)
        exact ih element ht hadds hσ hσ' (hσ.elements id w hw)
      | _ =>
        refine ⟨fun h => ?_, fun h => ?_⟩ <;>
          exact (nomatch (accepts_is_array ht h).choose_spec)

end Ty

end BasicScript
