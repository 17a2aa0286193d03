import BasicScript.Proofs.Types.Fitting

/-! # Conversions end in the type

In a store in which all values fit, what a typed place accepts and what a cast
makes fits the type, and so do the elements of all arrays that were made on
the way. Coercion alone may build an array whose elements do not fit; it is
the test afterwards that rules it out.
-/

namespace BasicScript

namespace Ty

variable {declared : DataDecl → Prop} {t element : Ty} {σ σ₁ σ₂ : Store} {v w : Value}

/-- Coercion to the type makes values of the type, if they belong to it once storage is complete. -/
def MakesTyped (declared : DataDecl → Prop) (t : Ty) : Prop :=
  ∀ {σ σ₁ σ₂ : Store} {v w : Value}, (t.coerce σ v).result? σ v = some (w, σ₁) → σ₁.Adds σ₂ →
    t.check σ₂ w = .ok () → σ.Typed declared → σ.Holds declared v →
      σ₁.Typed declared ∧ σ₁.Has declared t w

/-- The elements of an array have their type before the new array is there. -/
theorem each_has (he : element.MakesTyped declared) {vs ws : List Value} {moved : Bool}
    (h : Coerced.each element.coerce σ vs = some (moved, ws, σ₁)) (hadds : σ₁.Adds σ₂)
    (hchecks : ∀ w ∈ ws, element.check σ₂ w = .ok ()) (hσ : σ.Typed declared)
    (hvs : ∀ v ∈ vs, σ.Holds declared v) :
    σ₁.Typed declared ∧ ∀ w ∈ ws, σ₁.Has declared element w := by
  have hall : σ.Adds σ₁ ∧ (σ₁.Adds σ₂ → (∀ w ∈ ws, element.check σ₂ w = .ok ()) →
      σ.Typed declared → (∀ v ∈ vs, σ.Holds declared v) →
        σ₁.Typed declared ∧ ∀ w ∈ ws, σ₁.Has declared element w) := by
    refine Coerced.each_induction (P := fun σ vs ws σ₁ => σ.Adds σ₁ ∧ (σ₁.Adds σ₂ →
      (∀ w ∈ ws, element.check σ₂ w = .ok ()) → σ.Typed declared →
        (∀ v ∈ vs, σ.Holds declared v) →
          σ₁.Typed declared ∧ ∀ w ∈ ws, σ₁.Has declared element w)) ?_ ?_ h
    · exact fun σ => ⟨.refl σ, fun _ _ hσ _ => ⟨hσ, List.forall_mem_nil _⟩⟩
    · rintro σ v w σ₀ vs ws σ₁ hv ⟨hadds, hrest⟩
      have hadds₀ := coerce_adds hv
      refine ⟨hadds₀.trans hadds, fun hlater hchecks hσ hholds => ?_⟩
      rw [List.forall_mem_cons] at hchecks hholds
      obtain ⟨hσ₀, hw⟩ := he hv (hadds.trans hlater) hchecks.1 hσ hholds.1
      obtain ⟨hσ₁, hws⟩ := hrest hlater hchecks.2 hσ₀ fun v hv =>
        (hholds.2 v hv).grows hadds₀.grows fun _ h => h
      exact ⟨hσ₁, List.forall_mem_cons.mpr ⟨hw.grows hadds.grows fun _ h => h, hws⟩⟩
  exact hall.2 hadds hchecks hσ hvs

theorem coerce_has (t : Ty) : t.MakesTyped declared := by
  induction t using element_induction with
  | h t ih =>
    intro σ σ₁ σ₂ v w h hadds hcheck hσ hv
    rcases Coerced.result?_some.mp h with ⟨hc, rfl, rfl⟩ | hc
    · refine ⟨hσ, hv, ?_⟩
      cases helement : t.element? with
      | none => exact (check_scalar helement).mp hcheck
      | some element =>
        obtain ⟨id, rfl⟩ := check_is_array helement hcheck
        rw [coerce_array helement] at hc
        have hsize := ((check_array helement σ₂ id).mp hcheck).1
        rw [hadds.elements hv] at hsize
        exact (Store.fits_array helement id).mpr
          ⟨hsize, (coerceElements_same hc).imp_right And.left⟩
    · rcases coerce_changed hc with ⟨rfl, n, rfl, -⟩ | ⟨element, id, helement, rfl, hchanged⟩
      · refine ⟨hσ, trivial, ?_⟩
        cases helement : t.element? with
        | none => exact (check_scalar helement).mp hcheck
        | some element =>
          obtain ⟨id, hid⟩ := check_is_array helement hcheck
          cases hid
      · obtain ⟨hany, moved, ws, σ', heach, rfl, rfl⟩ := coerceElements_changed hchanged
        have hin := Store.newArray_bound σ' element ws
        obtain ⟨hsize, hwithin⟩ := (check_array helement σ₂ _).mp hcheck
        rw [hadds.elements hin, Store.elements_newArray] at hsize hwithin
        have hchecks := hwithin.resolve_left (by rw [hany]; exact Bool.false_ne_true)
        obtain ⟨hσ', hws⟩ := each_has (ih element helement) heach
          ((Store.Adds.newArray σ' element ws).trans hadds) hchecks hσ
          fun v hv => (hσ.elements_have id v hv).holds
        refine ⟨hσ'.newArray hws, hin, (Store.fits_array helement _).mpr ⟨?_, .inr ?_⟩⟩
        · rwa [Store.elements_newArray]
        · rw [Store.block_newArray]

/-- What passes a typed place has its type. -/
theorem conform_has (h : t.conform σ v = .ok (w, σ₁)) (hσ : σ.Typed declared)
    (hv : σ.Holds declared v) : σ₁.Typed declared ∧ σ₁.Has declared t w := by
  obtain ⟨hresult, hcheck⟩ := conform_ok.mp h
  exact t.coerce_has hresult (.refl σ₁) hcheck hσ hv

theorem castNumber_kind {k : NumericKind} {n : Number} (h : castNumber? k v = some n) :
    n.kind = k := by
  unfold castNumber? at h
  split at h
  · cases h
    exact Number.kind_convert _ _
  · cases h
    exact Number.kind_ofInt _ _
  · cases h
    exact Number.kind_ofInt _ _
  · dsimp only at h
    split at h
    · obtain ⟨i, -, rfl⟩ := Option.map_eq_some_iff.mp h
      exact Number.kind_ofInt _ _
    · obtain ⟨x, -, rfl⟩ := Option.map_eq_some_iff.mp h
      exact Number.kind_convert _ _
  · exact nomatch h

/-- What a cast to a keyword makes is a scalar, or the value itself. -/
theorem castPrimitive_cases {p : Primitive} (h : castPrimitive? σ p v = some w) :
    p.admits w = true ∧
      (w = v ∨ w.isMissing = false ∧ ∀ declared, σ.Holds declared w) := by
  unfold castPrimitive? at h
  split at h
  · cases h
    exact ⟨rfl, .inl rfl⟩
  · cases h
    exact ⟨rfl, .inr ⟨rfl, fun _ => trivial⟩⟩
  · split at h
    · cases h
      exact ⟨rfl, .inr ⟨rfl, fun _ => trivial⟩⟩
    · cases h
      exact ⟨rfl, .inr ⟨rfl, fun _ => trivial⟩⟩
    · exact nomatch h
  · cases h
    exact ⟨rfl, .inr ⟨rfl, fun _ => trivial⟩⟩
  · split at h
    · cases h
      exact ⟨rfl, .inr ⟨rfl, fun _ => trivial⟩⟩
    · exact nomatch h
  · split at h
    · obtain ⟨c, -, rfl⟩ := Option.map_eq_some_iff.mp h
      exact ⟨rfl, .inr ⟨rfl, fun _ => trivial⟩⟩
    · exact nomatch h
  · split at h
    · next k hk =>
      obtain ⟨n, hn, rfl⟩ := Option.map_eq_some_iff.mp h
      exact ⟨Primitive.admits_number (castNumber_kind hn ▸ hk), .inr ⟨rfl, fun _ => trivial⟩⟩
    · split at h
      · next hadmits =>
        cases h
        exact ⟨hadmits, .inl rfl⟩
      · exact nomatch h

theorem castPrimitive_check {p : Primitive} (h : castPrimitive? σ p v = some w)
    (hv : v.isMissing = false) : (prim p).check σ w = .ok () := by
  obtain ⟨hadmits, hw⟩ := castPrimitive_cases h
  have hpresent : w.isMissing = false := hw.elim (fun hw => hw ▸ hv) And.left
  cases w with
  | empty => exact nomatch hpresent
  | _ => exact if_pos hadmits

/-- What a cast to a keyword makes has that type. -/
theorem castPrimitive_fits {p : Primitive} (h : castPrimitive? σ p v = some w)
    (hv : v.isMissing = false) (hholds : σ.Holds declared v) : σ.Has declared (.prim p) w where
  holds := (castPrimitive_cases h).2.elim (fun hw => hw ▸ hholds) fun hw => hw.2 declared
  fits := (check_scalar rfl).mp (castPrimitive_check h hv)

theorem admits_check (h : t.admits σ v = true) : t.check σ v = .ok () := by
  unfold admits at h
  split at h
  · next hcheck => exact hcheck
  · exact nomatch h

/-- What a cast makes belongs to the type. -/
theorem cast_check (h : t.cast σ v = some (w, σ₁)) : t.check σ₁ w = .ok () := by
  rcases cast_some h with ⟨p, rfl, hp, hpresent, rfl⟩ | ⟨element, vs, -, -, hcast⟩ |
    ⟨rfl, rfl, hadmits, -⟩
  · exact castPrimitive_check hp hpresent
  · obtain ⟨ws, σ', -, -, -, hadmits⟩ := castElements_some hcast
    exact admits_check hadmits
  · exact admits_check hadmits

theorem elements_hold {vs : List Value} (hσ : σ.Typed declared) (h : σ.elements? v = some vs) :
    ∀ w ∈ vs, σ.Holds declared w := by
  intro w hw
  cases v with
  | string s =>
    cases h
    obtain ⟨c, -, rfl⟩ := List.mem_map.mp hw
    trivial
  | array id =>
    cases h
    exact (hσ.elements_have id w hw).holds
  | data d cells =>
    cases h
    obtain ⟨c, -, rfl⟩ := List.mem_map.mp hw
    exact hσ.cell_holds c
  | _ => exact nomatch h

/-- What a cast makes has the type. -/
theorem cast_has (h : t.cast σ v = some (w, σ₁)) (hσ : σ.Typed declared)
    (hv : σ.Holds declared v) : σ₁.Typed declared ∧ σ₁.Has declared t w := by
  induction t using element_induction generalizing σ σ₁ v w with
  | h t ih =>
    rcases cast_some h with ⟨p, rfl, hp, hpresent, rfl⟩ | ⟨element, vs, helement, hvs, hcast⟩ |
      ⟨rfl, rfl, hadmits, helement⟩
    · exact ⟨hσ, castPrimitive_fits hp hpresent hv⟩
    · obtain ⟨ws, σ', heach, rfl, rfl, hadmits⟩ := castElements_some hcast
      have helems : σ.Adds σ' ∧ (σ.Typed declared → (∀ v ∈ vs, σ.Holds declared v) →
          σ'.Typed declared ∧ ∀ w ∈ ws, σ'.Has declared element w) := by
        refine castEach_induction (P := fun σ vs ws σ' => σ.Adds σ' ∧ (σ.Typed declared →
          (∀ v ∈ vs, σ.Holds declared v) →
            σ'.Typed declared ∧ ∀ w ∈ ws, σ'.Has declared element w)) ?_ ?_ heach
        · exact fun σ => ⟨.refl σ, fun hσ _ => ⟨hσ, fun _ hw => nomatch hw⟩⟩
        · rintro σ v w σ₀ vs ws σ' hmoved ⟨hadds, hrest⟩
          have hadds₀ := cast_adds hmoved
          refine ⟨hadds₀.trans hadds, fun hσ hholds => ?_⟩
          rw [List.forall_mem_cons] at hholds
          obtain ⟨hσ₀, hw⟩ := ih element helement hmoved hσ hholds.1
          obtain ⟨hσ', hws⟩ := hrest hσ₀ fun v hv =>
            (hholds.2 v hv).grows hadds₀.grows fun _ h => h
          exact ⟨hσ', List.forall_mem_cons.mpr ⟨hw.grows hadds.grows fun _ h => h, hws⟩⟩
      obtain ⟨hσ', hws⟩ := helems.2 hσ (elements_hold hσ hvs)
      have hsize := ((check_array helement _ _).mp (admits_check hadmits)).1
      refine ⟨hσ'.newArray hws, Store.newArray_bound σ' element ws,
        (Store.fits_array helement _).mpr ⟨hsize, .inr ?_⟩⟩
      rw [Store.block_newArray]
    · exact ⟨hσ, hv, (check_scalar helement).mp (admits_check hadmits)⟩

end Ty

end BasicScript
