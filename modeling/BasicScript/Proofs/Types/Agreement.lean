import BasicScript.Eval.Declaration
import BasicScript.Proofs.Frame.Run
import BasicScript.Proofs.Types.Conversion
import BasicScript.Proofs.Types.Invariant
import BasicScript.Proofs.Types.Shape

/-! # Membership, coercion and casts agree

The test of membership, the way into a typed place and the cast are three
recursions over types. Each is contained in the next: what belongs to a type
is taken by its places as it looks, what a place takes is cast to the same
value, and what either of the two makes belongs to the type.
-/

namespace BasicScript

/-- A store with all that another holds, out of which no array leads. -/
structure Store.Later (σ σ' : Store) : Prop where
  adds : σ.Adds σ'
  closed : σ'.Closed

theorem Store.Later.trans {σ σ' σ'' : Store} (h : σ.Later σ') (h' : σ'.Later σ'') :
    σ.Later σ'' := ⟨h.adds.trans h'.adds, h'.closed⟩

theorem Store.Later.elements {σ σ' : Store} (h : σ.Later σ') {id : ArrayId}
    (hid : σ.Within (.array id)) : σ'.elements id = σ.elements id := h.adds.elements hid

namespace Ty

variable {t element : Ty} {p : Primitive} {k : NumericKind} {β σ σ₁ τ τ₁ ρ ρ₁ : Store}
  {v w : Value} {id : ArrayId}

theorem admits_of_check (h : t.check σ v = .ok ()) : t.admits σ v = true := by
  rw [admits, h]

/-! ## From membership to typed places -/

/-- What belongs to a type is taken by its places. -/
theorem accepts_of_check (h : t.check σ v = .ok ()) (hσ : σ.Closed) : t.Accepts σ v := by
  induction t using element_induction generalizing v with
  | h t ih =>
    cases helement : t.element? with
    | none =>
      refine ⟨v, σ, conform_ok.mpr ⟨?_, h⟩⟩
      rw [coerce_scalar_same helement h, Coerced.result?]
    | some element =>
      obtain ⟨id, rfl⟩ := check_is_array helement h
      obtain ⟨hsize, hwithin⟩ := (check_array helement σ id).mp h
      exact .of_elements helement (accepts_adds element) hσ hsize
        (hwithin.imp_right fun hchecks u hu => ih element helement (hchecks u hu))

/-- Coercion to the type leaves the looks of its members alone. -/
def KeepsShape (t : Ty) : Prop :=
  ∀ {σ σ₁ : Store} {v w : Value}, (t.coerce σ v).result? σ v = some (w, σ₁) →
    t.check σ v = .ok () → σ.Closed → σ.Within v → σ.SameShape v σ₁ w

theorem each_keeps (he : element.KeepsShape) {vs ws : List Value} {moved : Bool}
    (h : Coerced.each element.coerce σ vs = some (moved, ws, σ₁)) (hlater : σ₁.Adds ρ)
    (hσ : σ.Closed) (hvs : ∀ v ∈ vs, σ.Within v ∧ element.check σ v = .ok ()) :
    List.Forall₂ (fun v w => σ.SameShape v ρ w) vs ws := by
  -- The values were read in an earlier store `β`, before those to their left were coerced.
  have hall : σ.Adds σ₁ ∧ ∀ β, β.Closed → β.Adds σ → σ.Closed → σ₁.Adds ρ →
      (∀ v ∈ vs, β.Within v ∧ element.check β v = .ok ()) →
        List.Forall₂ (fun v w => β.SameShape v ρ w) vs ws := by
    refine Coerced.each_induction (P := fun σ vs ws σ₁ => σ.Adds σ₁ ∧ ∀ β, β.Closed →
      β.Adds σ → σ.Closed → σ₁.Adds ρ → (∀ v ∈ vs, β.Within v ∧ element.check β v = .ok ()) →
        List.Forall₂ (fun v w => β.SameShape v ρ w) vs ws) ?_ ?_ h
    · exact fun σ => ⟨.refl σ, fun _ _ _ _ _ _ => .nil⟩
    · rintro σ v w σ₀ vs ws σ₁ hv ⟨hadds₁, hrest⟩
      have hadds₀ := coerce_adds hv
      refine ⟨hadds₀.trans hadds₁, fun β hβ hadds hσ hlater hvs => ?_⟩
      obtain ⟨⟨hin, hcheck⟩, hvs⟩ := List.forall_mem_cons.mp hvs
      obtain ⟨hσ₀, hw⟩ := coerce_closed hv hσ (hin.adds hadds)
      have hhead : β.SameShape v σ₀ w := (Store.SameShape.adds hadds hβ hin).trans
        (he hv ((check_adds hadds hβ hin).mp hcheck) hσ (hin.adds hadds))
      exact .cons (hhead.trans (.adds (hadds₁.trans hlater) hσ₀ hw))
        (hrest β hβ (hadds.trans hadds₀) hσ₀ hlater hvs)
  exact hall.2 σ hσ (.refl σ) hσ hlater hvs

theorem coerce_keeps (t : Ty) : t.KeepsShape := by
  induction t using element_induction with
  | h t ih =>
    intro σ σ₁ v w h hcheck hσ hv
    rcases Coerced.result?_some.mp h with ⟨-, rfl, rfl⟩ | hc
    · exact .refl _ _
    cases helement : t.element? with
    | none =>
      rw [coerce_scalar_same helement hcheck] at hc
      cases hc
    | some element =>
      obtain ⟨id, rfl⟩ := check_is_array helement hcheck
      rw [coerce_array helement] at hc
      obtain ⟨hany, moved, ws, σ', heach, rfl, rfl⟩ := coerceElements_changed hc
      have hchecks := ((check_array helement σ id).mp hcheck).2.resolve_left
        (by rw [hany]; exact Bool.false_ne_true)
      refine Store.SameShape.array_iff.mpr ⟨_, rfl, ?_⟩
      rw [Store.elements_newArray]
      exact each_keeps (ih element helement) heach (.newArray σ' element ws) hσ
        fun u hu => ⟨hσ.elements id u hu, hchecks u hu⟩

/-! ## From typed places to casts -/

theorem castPrimitive_kind (hk : p.kind? = some k) :
    castPrimitive? σ p v = (castNumber? k v).map .number := by
  cases p <;> cases hk <;> rfl

/-- A cast to a keyword leaves the members of the type alone. -/
theorem castPrimitive_same (h : p.admits v = true) : castPrimitive? σ p v = some v := by
  cases hk : p.kind? with
  | some k =>
    obtain ⟨n, rfl, rfl⟩ := Primitive.admits_kind hk h
    rw [castPrimitive_kind hk, castNumber?, Number.convert_kind, Option.map_some]
  | none => cases p <;> cases hk <;> cases v <;> first | rfl | cases h

/-- A cast makes the number that coercion makes. -/
theorem castNumber_of_changed (h : coerceNumber k σ v = .changed w σ₁) :
    (castNumber? k v).map .number = some w := by
  unfold coerceNumber at h
  split at h
  · next n =>
    split at h
    · cases h
    · split at h
      · next m hm =>
        rw [Number.widen?, Option.ite_none_right_eq_some] at hm
        simp only [Coerced.changed.injEq] at h
        rw [castNumber?, hm.2, Option.map_some, h.1]
      · cases h
  · split at h
    · exact congrArg some (Coerced.changed.inj h).1
    · exact congrArg some (Coerced.changed.inj h).1
    · cases h
  · cases h

/-- Apart from arrays, a cast leaves the members of the type alone. -/
theorem cast_scalar_same (ht : t.element? = none) (h : t.check ρ v = .ok ()) :
    t.cast τ v = some (v, τ) := by
  have hadmits : t.admits τ v = true :=
    admits_of_check ((check_scalar (τ := τ) ht).mpr ((check_scalar ht).mp h))
  cases t with
  | array e size => cases ht
  | vararg e => cases ht
  | prim p =>
    have hp : p.admits v = true ∧ v.isMissing = false := by
      have hfits := (check_scalar (τ := τ) ht).mp h
      refine ⟨?_, hfits.present⟩
      cases v with
      | empty => exact hfits.elim
      | _ => exact hfits
    cases v with
    | empty => cases hp.2
    | _ => simp only [cast, castPrimitive_same hp.1, Option.map_some]
  | _ =>
    cases v with
    | empty => cases hadmits
    | _ => simp only [cast, hadmits, if_true]

/-- Apart from arrays, a cast makes the very value that a place makes. -/
theorem cast_scalar_of_conform (ht : t.element? = none) (h : t.conform ρ v = .ok (w, ρ₁)) :
    t.cast τ v = some (w, τ) ∧ ρ₁ = ρ ∧ (w = v ∨ ∃ n, w = .number n) := by
  obtain ⟨hresult, hcheck⟩ := conform_ok.mp h
  rcases Coerced.result?_some.mp hresult with ⟨-, rfl, rfl⟩ | hc
  · exact ⟨cast_scalar_same ht hcheck, rfl, .inl rfl⟩
  · cases t with
    | array e size => cases ht
    | vararg e => cases ht
    | prim p =>
      rw [coerce] at hc
      cases hk : p.kind? with
      | none =>
        rw [hk] at hc
        cases hc
      | some k =>
        rw [hk] at hc
        obtain ⟨rfl, n, rfl, -⟩ := coerceNumber_changed hc
        refine ⟨?_, rfl, .inr ⟨n, rfl⟩⟩
        cases v with
        | empty => cases hc
        | _ => simp only [cast, castPrimitive_kind hk, castNumber_of_changed hc, Option.map_some]
    | _ => cases hc

theorem cast_array (ht : t.element? = some element) (τ : Store) (id : ArrayId) :
    t.cast τ (.array id) = castElements t element element.cast τ (τ.elements id) := by
  cases t <;> cases ht <;> rfl

theorem castEach_same {f : Store → Value → Option (Value × Store)} {vs : List Value}
    (h : ∀ v ∈ vs, f τ v = some (v, τ)) : castEach f τ vs = some (vs, τ) := by
  induction vs with
  | nil => rfl
  | cons v vs ih =>
    rw [List.forall_mem_cons] at h
    simp only [castEach, h.1, ih h.2]

/-- The cast of an array passes its own test if its elements look like those of a member. -/
theorem castElements_of_shape (t element : Ty) {f : Store → Value → Option (Value × Store)}
    {vs us : List Value} (heach : castEach f τ vs = some (us, τ₁)) (hτ₁ : τ₁.Closed)
    (hus : ∀ u ∈ us, τ₁.Within u) (hcheck : t.check ρ (.array id) = .ok ())
    (hsame : List.Forall₂ (fun w u => ρ.SameShape w τ₁ u) (ρ.elements id) us) :
    ∃ id' τ₂, castElements t element f τ vs = some (.array id', τ₂) ∧ τ₁.Later τ₂ ∧
      τ₂.Within (.array id') ∧ ρ.SameShape (.array id) τ₂ (.array id') := by
  have hnew := Store.Adds.newArray τ₁ element us
  have hshape : ρ.SameShape (.array id) (τ₁.newArray element us).2
      (.array (τ₁.newArray element us).1) := by
    refine Store.SameShape.array_iff.mpr ⟨_, rfl, Store.SameShape.of_map fun depth => ?_⟩
    rw [Store.elements_newArray, Store.SameShape.map_eq hsame]
    exact List.map_congr_left fun u hu => (Store.shape_adds hnew hτ₁ (hus u hu) depth).symm
  have hadmits := admits_of_check ((check_shape hshape).mp hcheck)
  exact ⟨_, _, by simp only [castElements, heach, hadmits, if_true], ⟨hnew, hτ₁.newArray hus⟩,
    Store.newArray_bound τ₁ element us, hshape⟩

/-- What a typed place makes of a value, in whatever later store, is what a cast makes of it. -/
def CastsAlike (t : Ty) : Prop :=
  ∀ {β ρ τ ρ₁ : Store} {v w : Value}, β.Closed → β.Within v → β.Filled v → β.Later ρ →
    β.Later τ → t.conform ρ v = .ok (w, ρ₁) → ∃ u τ₁, t.cast τ v = some (u, τ₁) ∧
      τ.Later τ₁ ∧ τ₁.Within u ∧ ρ₁.SameShape w τ₁ u

theorem castEach_of_each (he : element.CastsAlike) {vs ws : List Value} {moved : Bool}
    (h : Coerced.each element.coerce ρ vs = some (moved, ws, ρ₁)) (hlater : ρ₁.Adds σ)
    (hchecks : ∀ w ∈ ws, element.check σ w = .ok ()) (hβ : β.Closed)
    (hvs : ∀ v ∈ vs, β.Within v ∧ β.Filled v) (hρ : β.Later ρ) (hτ : β.Later τ) :
    ∃ us τ₁, castEach element.cast τ vs = some (us, τ₁) ∧ τ.Later τ₁ ∧
      (∀ u ∈ us, τ₁.Within u) ∧ List.Forall₂ (fun w u => σ.SameShape w τ₁ u) ws us := by
  have hall : ρ.Adds ρ₁ ∧ ∀ τ, ρ₁.Adds σ → (∀ w ∈ ws, element.check σ w = .ok ()) →
      (∀ v ∈ vs, β.Within v ∧ β.Filled v) → β.Later ρ → β.Later τ →
        ∃ us τ₁, castEach element.cast τ vs = some (us, τ₁) ∧ τ.Later τ₁ ∧
          (∀ u ∈ us, τ₁.Within u) ∧ List.Forall₂ (fun w u => σ.SameShape w τ₁ u) ws us := by
    refine Coerced.each_induction (P := fun ρ vs ws ρ₁ => ρ.Adds ρ₁ ∧ ∀ τ, ρ₁.Adds σ →
      (∀ w ∈ ws, element.check σ w = .ok ()) → (∀ v ∈ vs, β.Within v ∧ β.Filled v) →
        β.Later ρ → β.Later τ → ∃ us τ₁, castEach element.cast τ vs = some (us, τ₁) ∧
          τ.Later τ₁ ∧ (∀ u ∈ us, τ₁.Within u) ∧
            List.Forall₂ (fun w u => σ.SameShape w τ₁ u) ws us) ?_ ?_ h
    · exact fun ρ => ⟨.refl ρ, fun τ _ _ _ _ hτ =>
        ⟨[], τ, rfl, ⟨.refl τ, hτ.closed⟩, List.forall_mem_nil _, .nil⟩⟩
    · rintro ρ v w ρ₀ vs ws ρ₁ hv ⟨hadds₁, hrest⟩
      have hadds₀ := coerce_adds hv
      refine ⟨hadds₀.trans hadds₁, fun τ hlater hchecks hvs hρ hτ => ?_⟩
      rw [List.forall_mem_cons] at hchecks hvs
      obtain ⟨⟨hin, hfilled⟩, hvs⟩ := hvs
      obtain ⟨hρ₀, hw⟩ := coerce_closed hv hρ.closed (hin.adds hρ.adds)
      have hcheck : element.check ρ₀ w = .ok () :=
        (check_adds (hadds₁.trans hlater) hρ₀ hw).mpr hchecks.1
      obtain ⟨u, τ₀, hcast, hτ₀, hu, hsame⟩ :=
        he hβ hin hfilled hρ hτ (conform_ok.mpr ⟨hv, hcheck⟩)
      obtain ⟨us, τ₁, heach, hτ₁, hus, hsames⟩ := hrest τ₀ hlater hchecks.2 hvs
        (hρ.trans ⟨hadds₀, hρ₀⟩) (hτ.trans hτ₀)
      have hhead : σ.SameShape w τ₁ u :=
        ((Store.SameShape.adds (hadds₁.trans hlater) hρ₀ hw).symm.trans hsame).trans
          (.adds hτ₁.adds hτ₀.closed hu)
      refine ⟨u :: us, τ₁, ?_, hτ₀.trans hτ₁,
        List.forall_mem_cons.mpr ⟨hu.adds hτ₁.adds, hus⟩, .cons hhead hsames⟩
      simp only [castEach, hcast, heach]
  exact hall.2 τ hlater hchecks hvs hρ hτ

theorem element?_of_any (h : t.acceptsAnything = true) : t.element? = none := by
  cases t <;> first | rfl | cases h

theorem check_of_any (h : t.acceptsAnything = true) (hv : v.isMissing = false) :
    t.check σ v = .ok () := by
  cases t with
  | inferred => cases v <;> first | rfl | cases hv
  | prim p =>
    obtain rfl : p = .any := by cases p <;> first | rfl | cases h
    cases v <;> first | rfl | cases hv
  | _ => cases h

/-- A place for anything takes an array as it is. -/
theorem conform_any (ht : t.element? = some element) (hany : element.acceptsAnything = true)
    (h : t.conform ρ (.array id) = .ok (w, ρ₁)) : w = .array id ∧ ρ₁ = ρ := by
  have hresult := (conform_ok.mp h).1
  rw [coerce_array ht, coerceElements, if_pos hany, Coerced.result?] at hresult
  cases hresult
  exact ⟨rfl, rfl⟩

/-- What a typed place makes of an array: the array itself, or one that holds what became of its
elements, all of which belong to the element type. -/
theorem conform_array (ht : t.element? = some element) (hany : element.acceptsAnything = false)
    (h : t.conform ρ (.array id) = .ok (w, ρ₁)) : ∃ moved ws ρ₀ id',
      Coerced.each element.coerce ρ (ρ.elements id) = some (moved, ws, ρ₀) ∧ ρ₀.Adds ρ₁ ∧
        w = .array id' ∧ ρ₁.elements id' = ws ∧ ∀ x ∈ ws, element.check ρ₁ x = .ok () := by
  obtain ⟨hresult, hcheck⟩ := conform_ok.mp h
  have hnot : ¬ element.acceptsAnything = true := by rw [hany]; exact Bool.false_ne_true
  rcases Coerced.result?_some.mp hresult with ⟨hc, rfl, rfl⟩ | hc
  · rw [coerce_array ht] at hc
    obtain ⟨-, ws, σ', heach⟩ := (coerceElements_same hc).resolve_left hnot
    obtain ⟨rfl, rfl⟩ := Coerced.each_unmoved heach
    exact ⟨false, _, _, id, heach, .refl _, rfl, rfl,
      ((check_array ht _ id).mp hcheck).2.resolve_left hnot⟩
  · rw [coerce_array ht] at hc
    obtain ⟨-, moved, ws, σ', heach, rfl, rfl⟩ := coerceElements_changed hc
    refine ⟨moved, ws, σ', _, heach, .newArray σ' element ws, rfl,
      Store.elements_newArray σ' element ws, ?_⟩
    have hchecks := ((check_array ht _ _).mp hcheck).2.resolve_left hnot
    rwa [Store.elements_newArray] at hchecks

theorem castsAlike (t : Ty) : t.CastsAlike := by
  induction t using element_induction with
  | h t ih =>
    intro β ρ τ ρ₁ v w hβ hv hfilled hρ hτ h
    cases ht : t.element? with
    | none =>
      obtain ⟨hcast, rfl, hw⟩ := cast_scalar_of_conform (τ := τ) ht h
      have hin : β.Within w := by
        rcases hw with rfl | ⟨n, rfl⟩
        · exact hv
        · trivial
      exact ⟨w, τ, hcast, ⟨.refl τ, hτ.closed⟩, hin.adds hτ.adds,
        (Store.SameShape.adds hρ.adds hβ hin).symm.trans (.adds hτ.adds hβ hin)⟩
    | some element =>
      obtain ⟨id, rfl⟩ := accepts_is_array ht ⟨w, ρ₁, h⟩
      have hpresent := Store.filled_array.mp hfilled
      have hinner := hβ.elements id
      obtain ⟨us, τ₁, id', rfl, hcasts, hτ₁, hus, hsames⟩ : ∃ us τ₁ id', w = .array id' ∧
          castEach element.cast τ (β.elements id) = some (us, τ₁) ∧ τ.Later τ₁ ∧
            (∀ u ∈ us, τ₁.Within u) ∧
              List.Forall₂ (fun x u => ρ₁.SameShape x τ₁ u) (ρ₁.elements id') us := by
        cases hany : element.acceptsAnything with
        | true =>
          obtain ⟨rfl, rfl⟩ := conform_any ht hany h
          refine ⟨β.elements id, τ, id, rfl, castEach_same fun u hu => ?_,
            ⟨.refl τ, hτ.closed⟩, fun u hu => (hinner u hu).adds hτ.adds, ?_⟩
          · exact cast_scalar_same (element?_of_any hany)
              (check_of_any (σ := τ) hany (hpresent u hu).1)
          · rw [hρ.elements hv]
            exact List.forall₂_same.mpr fun u hu =>
              (Store.SameShape.adds hρ.adds hβ (hinner u hu)).symm.trans
                (.adds hτ.adds hβ (hinner u hu))
        | false =>
          obtain ⟨moved, ws, ρ₀, id', heach, hlater, rfl, rfl, hchecks⟩ :=
            conform_array ht hany h
          rw [hρ.elements hv] at heach
          obtain ⟨us, τ₁, hcasts, hτ₁, hus, hsames⟩ := castEach_of_each (ih element ht) heach
            hlater hchecks hβ (fun u hu => ⟨hinner u hu, (hpresent u hu).2⟩) hρ hτ
          exact ⟨us, τ₁, id', rfl, hcasts, hτ₁, hus, hsames⟩
      obtain ⟨new, τ₂, hcast, hτ₂, hin, hshape⟩ :=
        castElements_of_shape t element hcasts hτ₁.closed hus (conform_ok.mp h).2 hsames
      refine ⟨.array new, τ₂, ?_, hτ₁.trans hτ₂, hin, hshape⟩
      rw [cast_array ht, hτ.elements hv, hcast]

end Ty

namespace Evaluator

/-- A declaration with a type succeeds exactly if a place of that type takes the value. -/
theorem bind_ok_iff {name : String} {t : Ty} {v : Value} {constant : Bool} {s s' : State}
    (ht : t ≠ .inferred) (hname : s.env.takesVariable name = true) :
    bind name t v constant s = .ok () s' ↔ ∃ w σ, t.conform s.store v = .ok (w, σ) ∧
      s' = { s with store := σ }.withVariable name ⟨t, w, constant⟩ := by
  have hbind : bind name t v constant s = (Run.conform t v >>= fun w => do
      let _ ← Run.declareVariable name ⟨t, w, constant⟩) s := by
    cases t with
    | inferred => exact absurd rfl ht
    | _ => rfl
  rcases Run.fit_cases t v (fun m got => .ofMismatch t got m) s with
    ⟨w, σ, hconform, hfit⟩ | ⟨m, hconform, hfit⟩
  · rcases Run.declareVariable_cases name ⟨t, w, constant⟩ { s with store := σ } with
      ⟨-, hdeclare⟩ | ⟨f, hdeclare⟩
    · rw [(hbind.trans (Run.bind_ok hfit _)).trans (Run.bind_ok hdeclare _)]
      refine ⟨fun h => ⟨w, σ, hconform, ?_⟩, ?_⟩
      · cases h
        rfl
      · rintro ⟨w', σ', hconform', rfl⟩
        rw [hconform] at hconform'
        cases hconform'
        rfl
    · rw [Run.declareVariable, if_pos hname] at hdeclare
      cases hdeclare
  · rw [hbind.trans (Run.bind_error hfit _)]
    refine ⟨fun h => (by cases h), ?_⟩
    rintro ⟨w, σ, hconform', -⟩
    rw [hconform] at hconform'
    cases hconform'

/-- The three ways to a type agree, for every type and every value without a missing value inside
an array: what belongs to the type is taken by its places with the same shape; what a place takes,
a cast turns into a value of the same shape, also after more has been stored; and what either of
them makes belongs to the type. So a value of the type can be put into a variable of the type, and
the cast of a value that a variable of the type takes gives the value of the variable. -/
theorem conversions_agree (t : Ty) (v : Value) (s : State) (hclosed : s.store.Closed)
    (hv : s.store.Within v) (hfilled : s.store.Filled v) :
    (t.check s.store v = .ok () →
      ∃ w σ, t.conform s.store v = .ok (w, σ) ∧ s.store.SameShape v σ w) ∧
    (∀ w σ τ, t.conform s.store v = .ok (w, σ) → s.store.Later τ →
      ∃ u τ', t.cast τ v = some (u, τ') ∧ σ.SameShape w τ' u) ∧
    (∀ w σ, t.conform s.store v = .ok (w, σ) → t.check σ w = .ok ()) ∧
    (∀ u σ, t.cast s.store v = some (u, σ) → t.check σ u = .ok ()) ∧
    ∀ name constant, t ≠ .inferred → s.env.takesVariable name = true →
      (t.admits s.store v = true → ∃ s', bind name t v constant s = .ok () s') ∧
      ∀ s', bind name t v constant s = .ok () s' → ∃ (w : Value) (σ : Store) (u : Value)
        (τ : Store), s' = { s with store := σ }.withVariable name ⟨t, w, constant⟩ ∧
          t.cast s.store v = some (u, τ) ∧ σ.SameShape w τ u ∧ t.admits τ u = true := by
  have hself : s.store.Later s.store := ⟨.refl _, hclosed⟩
  have hcasts : ∀ w σ τ, t.conform s.store v = .ok (w, σ) → s.store.Later τ →
      ∃ u τ', t.cast τ v = some (u, τ') ∧ σ.SameShape w τ' u := by
    intro w σ τ hconform hτ
    obtain ⟨u, τ', hcast, -, -, hshape⟩ := t.castsAlike hclosed hv hfilled hself hτ hconform
    exact ⟨u, τ', hcast, hshape⟩
  refine ⟨fun hcheck => ?_, hcasts, fun w σ h => (Ty.conform_ok.mp h).2,
    fun u σ h => Ty.cast_check h, fun name constant ht hname => ⟨fun hadmits => ?_, ?_⟩⟩
  · obtain ⟨w, σ, hconform⟩ := Ty.accepts_of_check hcheck hclosed
    exact ⟨w, σ, hconform, t.coerce_keeps (Ty.conform_ok.mp hconform).1 hcheck hclosed hv⟩
  · obtain ⟨w, σ, hconform⟩ := Ty.accepts_of_check (Ty.admits_check hadmits) hclosed
    exact ⟨_, (bind_ok_iff ht hname).mpr ⟨w, σ, hconform, rfl⟩⟩
  · intro s' hbind
    obtain ⟨w, σ, hconform, hs'⟩ := (bind_ok_iff ht hname).mp hbind
    obtain ⟨u, τ, hcast, hshape⟩ := hcasts w σ s.store hconform hself
    exact ⟨w, σ, u, τ, hs', hcast, hshape, Ty.admits_of_check (Ty.cast_check hcast)⟩

/-- An interpreter that holds an array of two shorts in an array of anything. -/
def shortsInAny : State :=
  let (row, σ) := Store.fresh.newArray (.prim .short) [.number (.short 1), .number (.short 2)]
  { State.initial ⟨false, none, false⟩ with store := (σ.newArray (.prim .any) [.array row]).2 }

/-- The array becomes a `long[][1]` in a typed place, and casts to an array that looks alike. -/
theorem conversions_agree_shortsInAny :
    shortsInAny.store.Closed ∧ shortsInAny.store.Filled (.array ⟨1⟩) ∧ ∃ w σ u τ,
      (Ty.array (.array (.prim .long) none) (some 1)).conform shortsInAny.store (.array ⟨1⟩) =
        .ok (w, σ) ∧
      (Ty.array (.array (.prim .long) none) (some 1)).cast shortsInAny.store (.array ⟨1⟩) =
        some (u, τ) ∧ σ.SameShape w τ u := by
  have hclosed : shortsInAny.store.Closed := by
    refine (Store.Closed.fresh.newArray ?_).newArray ?_
    · simp [Store.Within]
    · simp [Store.Within, Store.newArray, Store.fresh]
  have hfilled : shortsInAny.store.Filled (.array ⟨1⟩) := by
    have hrow : shortsInAny.store.Filled (.array ⟨0⟩) := by
      refine Store.filled_array.mpr ?_
      show ∀ u ∈ [Value.number (.short 1), .number (.short 2)], _
      simp [Value.isMissing, Store.filled_number]
    refine Store.filled_array.mpr ?_
    show ∀ u ∈ [Value.array ⟨0⟩], _
    simp [Value.isMissing, hrow]
  have hconform : (Ty.array (.array (.prim .long) none) (some 1)).conform shortsInAny.store
      (.array ⟨1⟩) = .ok (.array ⟨3⟩, _) := rfl
  obtain ⟨u, τ, hcast, hshape⟩ :=
    (conversions_agree (.array (.array (.prim .long) none) (some 1)) (.array ⟨1⟩) shortsInAny
      hclosed (Nat.lt_succ_self 1) hfilled).2.1 _ _ shortsInAny.store hconform
      ⟨.refl _, hclosed⟩
  exact ⟨hclosed, hfilled, _, _, u, τ, hconform, hcast, hshape⟩

end Evaluator

end BasicScript
