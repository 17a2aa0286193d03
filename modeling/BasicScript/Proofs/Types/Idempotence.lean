import BasicScript.Proofs.Types.Fitting

/-! # Coercion settles

What coercion has made, it leaves alone: a second coercion to the same type
returns the same handle and stores nothing. An array keeps its identity
exactly when its tag is the element type asked for and no element moves; any
other outcome is an array that was not there before.
-/

namespace BasicScript

namespace Store

variable {σ : Store} {id : ArrayId}

/-- A handle that leads nowhere reads as an array of anything. -/
theorem index_lt_of_tag (h : (σ.block id).element.acceptsAnything = false) :
    id.index < σ.arrays.size := by
  by_contra hout
  rw [block, Array.getElem?_eq_none (Nat.le_of_not_lt hout)] at h
  cases h

end Store

namespace Coerced

/-- Values that did not move were left alone one by one. -/
theorem same_of_unmoved {f : Store → Value → Coerced} {σ σ' : Store} {vs ws : List Value}
    (h : each f σ vs = some (false, ws, σ')) : ∀ v ∈ vs, f σ v = .same := by
  induction vs generalizing ws with
  | nil => exact List.forall_mem_nil _
  | cons v vs ih =>
    unfold each at h
    cases hv : f σ v with
    | failed => simp [hv] at h
    | same =>
      simp only [hv] at h
      split at h
      · cases h
      · next moved ws' τ rest =>
        simp only [Option.some.injEq, Prod.mk.injEq] at h
        obtain ⟨rfl, -, rfl⟩ := h
        exact List.forall_mem_cons.mpr ⟨hv, ih rest⟩
    | changed w σ₁ =>
      simp only [hv] at h
      split at h
      · cases h
      · cases (Prod.mk.inj (Option.some.inj h)).1

/-- Coercion of a row of values fails at one of them, in a store that has only grown. -/
theorem each_failed {f : Store → Value → Coerced} {σ : Store} {vs : List Value}
    (hadds : ∀ {σ v w σ'}, (f σ v).result? σ v = some (w, σ') → σ.Adds σ')
    (h : each f σ vs = none) : ∃ v ∈ vs, ∃ σ', σ.Adds σ' ∧ f σ' v = .failed := by
  induction vs generalizing σ with
  | nil => cases h
  | cons v vs ih =>
    cases hresult : (f σ v).result? σ v with
    | none =>
      refine ⟨v, List.mem_cons_self, σ, .refl σ, ?_⟩
      cases hv : f σ v with
      | failed => rfl
      | same => simp [hv, result?] at hresult
      | changed w σ₁ => simp [hv, result?] at hresult
    | some p =>
      obtain ⟨w, σ₁⟩ := p
      cases hrest : each f σ₁ vs with
      | none =>
        obtain ⟨u, hu, σ', hgrown, hfailed⟩ := ih hrest
        exact ⟨u, List.mem_cons_of_mem _ hu, σ', (hadds hresult).trans hgrown, hfailed⟩
      | some q =>
        obtain ⟨moved, ws, σ'⟩ := q
        obtain ⟨moved', hcons⟩ := each_cons hresult hrest
        rw [h] at hcons
        cases hcons

end Coerced

namespace Ty

variable {t element : Ty} {σ σ' σ₁ σ₂ : Store} {v w : Value} {id : ArrayId}

/-- An array is left alone for its tag and for each of its elements. -/
theorem coerceElements_same_iff {f : Store → Value → Coerced}
    (hany : element.acceptsAnything = false) :
    coerceElements element f σ id = .same ↔
      (σ.block id).element = element ∧ ∀ u ∈ σ.elements id, f σ u = .same := by
  constructor
  · intro h
    rcases coerceElements_same h with hany' | ⟨htag, ws, σ', heach⟩
    · rw [hany] at hany'
      cases hany'
    · exact ⟨htag, Coerced.same_of_unmoved heach⟩
  · rintro ⟨htag, hsame⟩
    rw [coerceElements, hany, Coerced.each_same hsame]
    simp only [htag, Bool.false_or, ne_eq, not_true_eq_false, decide_false, Bool.false_eq_true,
      if_false]

/-- A scalar is left alone whatever is stored. -/
theorem coerceNumber_same {k : NumericKind} (h : coerceNumber k σ v = .same) :
    coerceNumber k σ' v = .same := by
  unfold coerceNumber at h ⊢
  split at h
  · split at h
    · next hkind => rw [if_pos hkind]
    · split at h <;> cases h
  · split at h
    · cases h
    · cases h
    · rfl
  · rfl

/-- A number of the kind that the type names is left alone. -/
theorem coerce_number {n : Number} (h : t.kind? = some n.kind) :
    t.coerce σ (.number n) = .same := by
  cases t with
  | prim p =>
    rw [kind?] at h
    simp only [coerce, h, coerceNumber, if_true]
  | _ => cases h

/-- What coercion leaves alone, it leaves alone when more arrays are there. -/
theorem coerce_same_adds (h : t.coerce σ v = .same) (hadds : σ.Adds σ') :
    t.coerce σ' v = .same := by
  induction t using element_induction generalizing v with
  | h t ih =>
    cases helement : t.element? with
    | none =>
      cases t with
      | prim p =>
        unfold coerce at h ⊢
        cases hk : p.kind? with
        | none => rfl
        | some k =>
          simp only [hk] at h
          exact coerceNumber_same h
      | array element size => cases helement
      | vararg element => cases helement
      | _ => rfl
    | some element =>
      cases v with
      | array id =>
        rw [coerce_array helement] at h ⊢
        cases hany : element.acceptsAnything with
        | true => rw [coerceElements, if_pos hany]
        | false =>
          obtain ⟨htag, hsame⟩ := (coerceElements_same_iff hany).mp h
          have hid : id.index < σ.arrays.size := Store.index_lt_of_tag (htag ▸ hany)
          rw [coerceElements_same_iff hany, hadds.block hid, hadds.elements hid]
          exact ⟨htag, fun u hu => ih element helement (hsame u hu)⟩
      | _ => cases t <;> cases helement <;> rfl

/-- What coercion has made, it leaves alone from then on. -/
theorem coerce_settles (h : (t.coerce σ v).result? σ v = some (w, σ₁)) (hadds : σ₁.Adds σ₂) :
    t.coerce σ₂ w = .same := by
  induction t using element_induction generalizing σ σ₁ v w with
  | h t ih =>
    rcases Coerced.result?_some.mp h with ⟨hsame, rfl, rfl⟩ | hchanged
    · exact coerce_same_adds hsame hadds
    · rcases coerce_changed hchanged with ⟨-, n, rfl, hkind⟩ |
        ⟨element, id, helement, -, hchanged⟩
      · exact coerce_number hkind
      · obtain ⟨hany, moved, ws, σ', heach, rfl, rfl⟩ := coerceElements_changed hchanged
        have hid := Store.newArray_bound σ' element ws
        have hgrown := (Store.Adds.newArray σ' element ws).trans hadds
        have hsettled : σ.Adds σ' ∧ (σ'.Adds σ₂ → ∀ u ∈ ws, element.coerce σ₂ u = .same) := by
          refine Coerced.each_induction (P := fun σ _ ws σ' => σ.Adds σ' ∧ (σ'.Adds σ₂ →
            ∀ u ∈ ws, element.coerce σ₂ u = .same)) ?_ ?_ heach
          · exact fun σ => ⟨.refl σ, fun _ => List.forall_mem_nil _⟩
          · rintro σ v w σ₀ vs ws σ' hv ⟨hrest, hws⟩
            refine ⟨(coerce_adds hv).trans hrest, fun hlater => ?_⟩
            exact List.forall_mem_cons.mpr
              ⟨ih element helement hv (hrest.trans hlater), hws hlater⟩
        rw [coerce_array helement, coerceElements_same_iff hany, hadds.block hid,
          hadds.elements hid, Store.block_newArray, Store.elements_newArray]
        exact ⟨rfl, hsettled.2 hgrown⟩

/-- The elements of a new array are what coercion, one after the other, made of those of the old
array. -/
theorem each_elements {vs ws : List Value} {moved : Bool}
    (h : Coerced.each element.coerce σ vs = some (moved, ws, σ')) :
    σ.Adds σ' ∧ List.Forall₂ (fun v w => ∃ σ₁ σ₂, σ.Adds σ₁ ∧ σ₂.Adds σ' ∧
      (element.coerce σ₁ v).result? σ₁ v = some (w, σ₂)) vs ws := by
  refine Coerced.each_induction (P := fun σ vs ws σ' => σ.Adds σ' ∧ List.Forall₂ (fun v w =>
    ∃ σ₁ σ₂, σ.Adds σ₁ ∧ σ₂.Adds σ' ∧ (element.coerce σ₁ v).result? σ₁ v = some (w, σ₂)) vs ws)
    (fun σ => ⟨.refl σ, .nil⟩) ?_ h
  rintro σ v w σ₀ vs ws σ' hv ⟨hrest, hws⟩
  have hfirst := coerce_adds hv
  refine ⟨hfirst.trans hrest, .cons ⟨σ, σ₀, .refl σ, hrest, hv⟩ (hws.imp ?_)⟩
  rintro u x ⟨σ₁, σ₂, hσ₁, hσ₂, hu⟩
  exact ⟨σ₁, σ₂, hfirst.trans hσ₁, hσ₂, hu⟩

/-- Coercion is idempotent, and so is the way into a typed place: what came out goes in again
unchanged, with the same handle and the same store. Storage that existed is never written. An
array keeps its handle exactly when it is tagged with the element type and coercion leaves every
element alone; otherwise, unless coercion of an element fails, a new array of that tag holds what
became of the elements. -/
theorem coerce_idempotent (t : Ty) (σ : Store) (v : Value) :
    (∀ w σ', (t.coerce σ v).result? σ v = some (w, σ') →
      σ.Adds σ' ∧ t.coerce σ' w = .same) ∧
    (∀ w σ', t.conform σ v = .ok (w, σ') → σ.Adds σ' ∧ t.conform σ' w = .ok (w, σ')) ∧
    ∀ element id, t.element? = some element → element.acceptsAnything = false → v = .array id →
      (t.coerce σ v = .same ↔
        (σ.block id).element = element ∧ ∀ u ∈ σ.elements id, element.coerce σ u = .same) ∧
      (∀ w σ', t.coerce σ v = .changed w σ' → ∃ id', w = .array id' ∧
        σ.arrays.size ≤ id'.index ∧ id'.index < σ'.arrays.size ∧
        (σ'.block id').element = element ∧
        List.Forall₂ (fun u x => ∃ σ₁ σ₂, σ.Adds σ₁ ∧ σ₂.Adds σ' ∧
          (element.coerce σ₁ u).result? σ₁ u = some (x, σ₂)) (σ.elements id) (σ'.elements id')) ∧
      (t.coerce σ v = .failed →
        ∃ u ∈ σ.elements id, ∃ σ₁, σ.Adds σ₁ ∧ element.coerce σ₁ u = .failed) := by
  refine ⟨fun w σ' h => ⟨coerce_adds h, coerce_settles h (.refl σ')⟩, fun w σ' h => ?_, ?_⟩
  · obtain ⟨hresult, hcheck⟩ := conform_ok.mp h
    refine ⟨coerce_adds hresult, conform_ok.mpr ⟨?_, hcheck⟩⟩
    rw [coerce_settles hresult (.refl σ'), Coerced.result?]
  · rintro element id helement hany rfl
    rw [coerce_array helement]
    refine ⟨coerceElements_same_iff hany, fun w σ' h => ?_, fun h => ?_⟩
    · obtain ⟨-, moved, ws, σ₁, heach, rfl, rfl⟩ := coerceElements_changed h
      obtain ⟨hadds, helements⟩ := each_elements heach
      have hnew := Store.Adds.newArray σ₁ element ws
      refine ⟨_, rfl, hadds.size_le, Store.newArray_bound σ₁ element ws, ?_, ?_⟩
      · rw [Store.block_newArray]
      · rw [Store.elements_newArray]
        refine helements.imp ?_
        rintro u x ⟨σ₂, σ₃, hσ₂, hσ₃, hu⟩
        exact ⟨σ₂, σ₃, hσ₂, hσ₃.trans hnew, hu⟩
    · exact Coerced.each_failed coerce_adds (coerceElements_failed.mp h).2

/-- An array tagged `any`, whose only element is an array of two bytes. -/
def nestedBytes : Store :=
  ⟨#[], #[⟨.prim .byte, #[.number (.byte 1), .number (.byte 2)]⟩, ⟨.prim .any, #[.array ⟨0⟩]⟩]⟩

/-- Both arrays are built anew as `int[][]`, and never again. -/
theorem coerce_idempotent_nestedBytes : ∃ σ',
    (coerce (.array (.array (.prim .int) none) none) nestedBytes (.array ⟨1⟩)).result?
      nestedBytes (.array ⟨1⟩) = some (.array ⟨3⟩, σ') ∧
    (σ'.block ⟨3⟩).element = .array (.prim .int) none ∧
    coerce (.array (.array (.prim .int) none) none) σ' (.array ⟨3⟩) = .same ∧
    coerce (.array (.array (.prim .int) none) none) nestedBytes (.array ⟨1⟩) ≠ .same := by
  obtain ⟨hsettles, -, harray⟩ :=
    coerce_idempotent (.array (.array (.prim .int) none) none) nestedBytes (.array ⟨1⟩)
  refine ⟨_, rfl, rfl, (hsettles _ _ rfl).2, fun h => ?_⟩
  cases ((harray _ ⟨1⟩ rfl rfl rfl).1.mp h).1

end Ty

end BasicScript
