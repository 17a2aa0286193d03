import BasicScript.Proofs.Types.Common

/-! # Array literals

An array literal evaluates its elements and notes the types that they show.
Each of the values then passes a place of the type that all of them share, so
nothing but an element can make the literal fail.
-/

namespace BasicScript

namespace Run

variable {α β : Type} {f : α → Run β} {a : α} {as : List α} {bs : List β} {s t : State} {e : Stop}

theorem mapM_cons_ok : (a :: as).mapM f s = .ok bs t ↔
    ∃ b u bs', f a s = .ok b u ∧ as.mapM f u = .ok bs' t ∧ bs = b :: bs' := by
  rw [List.mapM_cons]
  constructor
  · intro h
    obtain ⟨b, u, hb, h⟩ := exists_of_bind_ok h
    obtain ⟨bs', u', hbs, h⟩ := exists_of_bind_ok h
    cases h
    exact ⟨b, u, bs', hb, hbs, rfl⟩
  · rintro ⟨b, u, bs', hb, hbs, rfl⟩
    exact (bind_ok hb _).trans (bind_ok hbs _)

/-- A row of runs fails at one of them, after the ones before it have succeeded. -/
theorem mapM_error (h : as.mapM f s = .error e t) : ∃ before a after bs u,
    as = before ++ a :: after ∧ before.mapM f s = .ok bs u ∧ f a u = .error e t := by
  induction as generalizing s with
  | nil => cases h
  | cons a as ih =>
    rw [List.mapM_cons] at h
    cases hb : f a s with
    | error e' u =>
      rw [bind_error hb] at h
      cases h
      exact ⟨[], a, as, [], s, rfl, rfl, hb⟩
    | ok b u =>
      rw [bind_ok hb] at h
      cases hbs : as.mapM f u with
      | ok bs u' =>
        rw [bind_ok hbs] at h
        cases h
      | error e' u' =>
        rw [bind_error hbs] at h
        cases h
        obtain ⟨before, a', after, bs, v, rfl, hbefore, ha'⟩ := ih hbs
        exact ⟨a :: before, a', after, b :: bs, v, rfl,
          mapM_cons_ok.mpr ⟨b, u, bs, hb, hbefore, rfl⟩, ha'⟩

/-- Values that a place accepts pass it one after the other. -/
theorem mapM_conform (t : Ty) {vs : List Value} (hσ : s.store.Closed)
    (hvs : ∀ v ∈ vs, s.store.Within v ∧ t.Accepts s.store v) :
    ∃ ws σ, vs.mapM (Run.conform t) s = .ok ws { s with store := σ } ∧ s.store.Later σ ∧
      (∀ w ∈ ws, σ.Within w) ∧ List.Forall₂ (fun v w => ∃ σ₁ σ₂, s.store.Later σ₁ ∧
        σ₂.Later σ ∧ t.conform σ₁ v = .ok (w, σ₂)) vs ws := by
  induction vs generalizing s with
  | nil => exact ⟨[], s.store, rfl, ⟨.refl _, hσ⟩, List.forall_mem_nil _, .nil⟩
  | cons v vs ih =>
    rw [List.forall_mem_cons] at hvs
    obtain ⟨⟨hv, w, σ₁, hconform⟩, hvs⟩ := hvs
    obtain ⟨hσ₁, hw⟩ := Ty.coerce_closed (Ty.conform_ok.mp hconform).1 hσ hv
    have hlater : s.store.Later σ₁ := ⟨Ty.conform_adds hconform, hσ₁⟩
    have hrun : Run.conform t v s = .ok w { s with store := σ₁ } := by
      rcases fit_cases t v (fun m got => .ofMismatch t got m) s with
        ⟨w', σ', hconform', hfit⟩ | ⟨m, hconform', -⟩
      · rw [hconform] at hconform'
        cases hconform'
        exact hfit
      · rw [hconform] at hconform'
        cases hconform'
    obtain ⟨ws, σ, hrest, hσ, hws, hall⟩ := ih (s := { s with store := σ₁ }) hσ₁ fun u hu =>
      ⟨(hvs u hu).1.adds hlater.adds,
        (t.accepts_adds hlater.adds ‹_› hσ₁ (hvs u hu).1).mp (hvs u hu).2⟩
    refine ⟨w :: ws, σ, mapM_cons_ok.mpr ⟨w, _, ws, hrun, hrest, rfl⟩, hlater.trans hσ,
      List.forall_mem_cons.mpr ⟨hw.adds hσ.adds, hws⟩,
      .cons ⟨s.store, σ₁, ⟨.refl _, ‹_›⟩, hσ, hconform⟩ (hall.imp ?_)⟩
    rintro u x ⟨σ₂, σ₃, hσ₂, hσ₃, hx⟩
    exact ⟨σ₂, σ₃, hlater.trans hσ₂, hσ₃, hx⟩

end Run

theorem Store.typeOf?_grows {declared : DataDecl → Prop} {σ σ' : Store} {v : Value}
    (hv : σ.Holds declared v) (hg : σ.Grows σ') : σ'.typeOf? v = σ.typeOf? v := by
  cases v with
  | array id =>
    show some (Ty.array (σ'.block id).element none) = _
    rw [(hg.block hv).element]
    rfl
  | _ => rfl

theorem State.Typed.wellTagged {s : State} (h : s.Typed) (v : Value) : s.store.WellTagged v := by
  cases v with
  | array id => exact fun u hu => (h.store.elements_have id u hu).fits.conform h.store
  | _ => trivial

namespace Evaluator

/-- An element of an array literal, with the type that it shows. -/
def shown (r : Evaluator) (hint : Option Ty) (e : Expr) : Run (Value × Ty) := do
  let v ← r.eval hint e
  return (v, ← Run.require .cannotInfer (← Run.typeOf v))

variable {r : Evaluator} {hint : Option Ty} {e : Expr} {es : List Expr} {s t : State}
  {v : Value} {vs : List Value} {stop : Stop}

theorem arrayLiteral_eq (r : Evaluator) (hint : Option Ty) (es : List Expr) :
    r.arrayLiteral hint es = (do
      let typed ← es.mapM (r.shown hint)
      let element := Ty.joint (typed.map Prod.snd)
      let values ← (typed.map Prod.fst).mapM (Run.conform element)
      Run.newArray element values) := by
  unfold arrayLiteral
  refine congrArg (es.mapM (r.shown hint) >>= ·) (funext fun typed => ?_)
  cases typed with
  | nil => rfl
  | cons p rest =>
    have hjoint : Ty.joint ((p :: rest).map Prod.snd) =
        rest.foldl (fun t q => t.common q.2) p.2 := List.foldl_map
    simp only [List.mapM_map, hjoint]
    rfl

theorem shown_ok {p : Value × Ty} (h : r.shown hint e s = .ok p t) :
    r.eval hint e s = .ok p.1 t ∧ t.store.typeOf? p.1 = some p.2 := by
  obtain ⟨v, u, hv, h⟩ := Run.exists_of_bind_ok h
  have h' : (Run.require .cannotInfer (u.store.typeOf? v) >>= fun type =>
    Pure.pure (v, type)) u = .ok p t := h
  cases htype : u.store.typeOf? v with
  | none =>
    rw [htype] at h'
    cases h'
  | some type =>
    rw [htype] at h'
    cases h'
    exact ⟨hv, htype⟩

theorem shown_of_eval (h : r.eval hint e s = .ok v t) (hv : v.isMissing = false) :
    ∃ type, r.shown hint e s = .ok (v, type) t := by
  obtain ⟨type, htype⟩ := Store.typeOf?_some (σ := t.store) hv
  refine ⟨type, (Run.bind_ok h _).trans ?_⟩
  show (Run.require .cannotInfer (t.store.typeOf? v) >>= fun type => Pure.pure (v, type)) t = _
  rw [htype]
  rfl

theorem shown_error (h : r.shown hint e s = .error stop t) :
    r.eval hint e s = .error stop t ∨
      r.eval hint e s = .ok .empty t ∧ stop = .error (.ofFault .cannotInfer) := by
  cases hv : r.eval hint e s with
  | error e' u =>
    rw [show r.shown hint e s = .error e' u from Run.bind_error hv _] at h
    cases h
    exact .inl rfl
  | ok v u =>
    cases hmissing : v.isMissing with
    | true =>
      obtain rfl := Value.eq_empty hmissing
      have hfail : r.shown hint e s = .error (.error (.ofFault .cannotInfer)) u :=
        Run.bind_ok hv _
      rw [hfail] at h
      cases h
      exact .inr ⟨rfl, rfl⟩
    | false =>
      obtain ⟨type, hshown⟩ := shown_of_eval hv hmissing
      rw [hshown] at h
      cases h

namespace Sound

/-- The type that an element shows stays the same until the literal is complete. -/
theorem shown (hr : r.Sound) (hint : Option Ty) (e : Expr) :
    (r.shown hint e).Sound s fun p t => t.Holds p.1 ∧ t.store.typeOf? p.1 = some p.2 := by
  refine (hr.eval hint e s).bind fun v t _ hv => Run.Sound.readBind ?_
  refine Run.Sound.requireBind fun type htype => Run.Sound.pure ⟨hv, htype⟩

theorem mapM_shown (hr : r.Sound) (hs : s.Typed) {ps : List (Value × Ty)}
    (h : es.mapM (r.shown hint) s = .ok ps t) :
    t.Typed ∧ ∀ p ∈ ps, t.Holds p.1 ∧ t.store.typeOf? p.1 = some p.2 := by
  have hstable : Claim.Stable fun (p : Value × Ty) (t : State) =>
      t.Holds p.1 ∧ t.store.typeOf? p.1 = some p.2 := fun _ _ _ hg hp =>
    ⟨hp.1.grows hg, (Store.typeOf?_grows hp.1 hg.store).trans hp.2⟩
  obtain ⟨ht, -, hps⟩ := Run.Sound.mapM hstable es (fun e _ _ _ => hr.shown hint e) hs
  rw [Run.state_ok h] at ht
  exact ⟨ht, (hps ps t h).2⟩

end Sound

theorem eval_of_shown {ps : List (Value × Ty)} (h : es.mapM (r.shown hint) s = .ok ps t) :
    es.mapM (r.eval hint) s = .ok (ps.map Prod.fst) t := by
  induction es generalizing s ps with
  | nil =>
    cases h
    rfl
  | cons e es ih =>
    obtain ⟨p, u, ps', hp, hps, rfl⟩ := Run.mapM_cons_ok.mp h
    exact Run.mapM_cons_ok.mpr ⟨p.1, u, _, (shown_ok hp).1, ih hps, rfl⟩

theorem shown_of_evals (h : es.mapM (r.eval hint) s = .ok vs t)
    (hvs : ∀ v ∈ vs, v.isMissing = false) :
    ∃ ps, es.mapM (r.shown hint) s = .ok ps t ∧ ps.map Prod.fst = vs := by
  induction es generalizing s vs with
  | nil =>
    cases h
    exact ⟨[], rfl, rfl⟩
  | cons e es ih =>
    obtain ⟨v, u, vs', hv, hrest, rfl⟩ := Run.mapM_cons_ok.mp h
    rw [List.forall_mem_cons] at hvs
    obtain ⟨type, hshown⟩ := shown_of_eval hv hvs.1
    obtain ⟨ps, hps, rfl⟩ := ih hrest hvs.2
    exact ⟨(v, type) :: ps, Run.mapM_cons_ok.mpr ⟨_, u, ps, hshown, hps, rfl⟩, rfl⟩

theorem Sound.shown_types (hr : r.Sound) (hs : s.Typed) {ps : List (Value × Ty)}
    (h : es.mapM (r.shown hint) s = .ok ps t) :
    ps.map Prod.snd = (ps.map Prod.fst).filterMap t.store.typeOf? := by
  have hps := (hr.mapM_shown hs h).2
  clear h
  induction ps with
  | nil => rfl
  | cons p ps ih =>
    rw [List.forall_mem_cons] at hps
    rw [List.map_cons, List.map_cons, List.filterMap_cons_some hps.1.2, ih hps.2]

/-- Where its elements have been noted, a literal makes an array of their joint type. -/
theorem Sound.arrayLiteral_shown (hr : r.Sound) (hs : s.Typed) {ps : List (Value × Ty)}
    (h : es.mapM (r.shown hint) s = .ok ps t) :
    let element := Ty.joint ((ps.map Prod.fst).filterMap t.store.typeOf?)
    ∃ ws σ, t.store.Later σ ∧ (∀ w ∈ ws, σ.Within w) ∧
      r.arrayLiteral hint es s = .ok (.array (σ.newArray element ws).1)
        { t with store := (σ.newArray element ws).2 } ∧
      List.Forall₂ (fun v w => ∃ σ₁ σ₂, t.store.Later σ₁ ∧ σ₂.Later σ ∧
        element.conform σ₁ v = .ok (w, σ₂)) (ps.map Prod.fst) ws := by
  intro element
  obtain ⟨ht, hps⟩ := hr.mapM_shown hs h
  have hvalues : ∀ v ∈ ps.map Prod.fst, t.Holds v ∧ v.isMissing = false := by
    intro v hv
    obtain ⟨p, hp, rfl⟩ := List.mem_map.mp hv
    refine ⟨(hps p hp).1, Value.isMissing_eq_false fun hmissing => ?_⟩
    have htype := (hps p hp).2
    rw [hmissing] at htype
    cases htype
  have haccepts : ∀ v ∈ ps.map Prod.fst, element.Accepts t.store v :=
    Store.accepts_joint ht.store.closed fun v hv => ⟨(hvalues v hv).2, ht.wellTagged v⟩
  obtain ⟨ws, σ, hconform, hσ, hws, hall⟩ := Run.mapM_conform element ht.store.closed
    fun v hv => ⟨(hvalues v hv).1.within, haccepts v hv⟩
  refine ⟨ws, σ, hσ, hws, ?_, hall⟩
  rw [arrayLiteral_eq]
  refine (Run.bind_ok h _).trans ?_
  rw [hr.shown_types hs h]
  exact Run.bind_ok hconform _

/-- A literal fails only where an element fails, or is the missing value. -/
theorem Sound.arrayLiteral_error (hr : r.Sound) (hs : s.Typed)
    (h : r.arrayLiteral hint es s = .error stop t) : ∃ before e after vs u,
      es = before ++ e :: after ∧ before.mapM (r.eval hint) s = .ok vs u ∧
        (r.eval hint e u = .error stop t ∨
          r.eval hint e u = .ok .empty t ∧ stop = .error (.ofFault .cannotInfer)) := by
  cases hshown : es.mapM (r.shown hint) s with
  | ok ps u =>
    obtain ⟨ws, σ, -, -, hrun, -⟩ := hr.arrayLiteral_shown hs hshown
    rw [hrun] at h
    cases h
  | error stop' u =>
    rw [arrayLiteral_eq, Run.bind_error hshown] at h
    cases h
    obtain ⟨before, e, after, ps, v, rfl, hbefore, he⟩ := Run.mapM_error hshown
    exact ⟨before, e, after, _, v, rfl, eval_of_shown hbefore, shown_error he⟩

/-- A literal that succeeds has evaluated all its elements, and bears the type that they share. -/
theorem Sound.arrayLiteral_ok (hr : r.Sound) (hs : s.Typed)
    (h : r.arrayLiteral hint es s = .ok v t) : ∃ vs u id,
      es.mapM (r.eval hint) s = .ok vs u ∧ v = .array id ∧
        (t.store.block id).element = Ty.joint (vs.filterMap u.store.typeOf?) := by
  cases hshown : es.mapM (r.shown hint) s with
  | ok ps u =>
    obtain ⟨ws, σ, -, -, hrun, -⟩ := hr.arrayLiteral_shown hs hshown
    rw [hrun] at h
    cases h
    refine ⟨_, u, _, eval_of_shown hshown, rfl, ?_⟩
    rw [Store.block_newArray]
  | error stop' u =>
    rw [arrayLiteral_eq, Run.bind_error hshown] at h
    cases h

/-- The common type is a join: it commutes, associates and is idempotent, so neither the order nor
the grouping of elements matters to the tag of an array literal. Values that are there, and whose
arrays hold what their tags say, all pass a place of the common type of the types that they show.
So a literal makes an array of that type, or one of its elements fails or is the missing value. -/
theorem common_is_join :
    (∀ a b : Ty, a.common b = b.common a) ∧
    (∀ a b c : Ty, (a.common b).common c = a.common (b.common c)) ∧
    (∀ a : Ty, a.common a = a) ∧
    (∀ ts us : List Ty, ts.Perm us → Ty.joint ts = Ty.joint us) ∧
    (∀ groups : List (List Ty), (∀ g ∈ groups, g ≠ []) →
      Ty.joint (groups.map Ty.joint) = Ty.joint groups.flatten) ∧
    (∀ (σ : Store) (vs : List Value), σ.Closed →
      (∀ v ∈ vs, v.isMissing = false ∧ σ.WellTagged v) →
        ∀ v ∈ vs, (Ty.joint (vs.filterMap σ.typeOf?)).Accepts σ v) ∧
    ∀ (settings : Settings) (s : State), s.Amid settings →
      ∀ (fuel : Nat) (hint : Option Ty) (es : List Expr),
        let r := ofFuel .standard fuel
        (∀ v t, r.arrayLiteral hint es s = .ok v t → ∃ vs u id,
          es.mapM (r.eval hint) s = .ok vs u ∧ v = .array id ∧
            (t.store.block id).element = Ty.joint (vs.filterMap u.store.typeOf?)) ∧
        ∀ stop t, r.arrayLiteral hint es s = .error stop t → ∃ before e after vs u,
          es = before ++ e :: after ∧ before.mapM (r.eval hint) s = .ok vs u ∧
            (r.eval hint e u = .error stop t ∨
              r.eval hint e u = .ok .empty t ∧ stop = .error (.ofFault .cannotInfer)) := by
  refine ⟨Ty.common_comm, Ty.common_assoc, Ty.common_self, fun _ _ => Ty.joint_perm,
    fun _ => Ty.joint_flatten, fun _ _ hσ => Store.accepts_joint hσ, ?_⟩
  intro settings s hs fuel hint es r
  exact ⟨fun v t => (standard_sound fuel).arrayLiteral_ok hs.typed,
    fun stop t => (standard_sound fuel).arrayLiteral_error hs.typed⟩

/-- A store with a row of bytes and a row of long numbers. -/
def rowsOfNumbers : Store :=
  ((Store.fresh.newArray (.prim .byte) [.number (.byte 1)]).2.newArray (.prim .long)
    [.number (.long 2)]).2

/-- The literal `[1, none, ]`, whose last element is missing. -/
def missingLast : List Expr :=
  [.generated (.literal (.int 1)), .generated (.literal .none), .generated .empty]

/-- Rows of different numbers share the type of the wider ones. A literal of a number and of `none`
does not fail for that, but for the missing element after them. -/
theorem common_is_join_rows :
    (∀ v ∈ [Value.array ⟨0⟩, .array ⟨1⟩],
      (Ty.array (.prim .long) none).Accepts rowsOfNumbers v) ∧
    ∃ stop t before e after vs u,
      (ofFuel .standard 2).arrayLiteral none missingLast (.initial ⟨false, none, true⟩) =
        .error stop t ∧ missingLast = before ++ e :: after ∧
      before.mapM ((ofFuel .standard 2).eval none) (.initial ⟨false, none, true⟩) = .ok vs u ∧
      ((ofFuel .standard 2).eval none e u = .error stop t ∨
        (ofFuel .standard 2).eval none e u = .ok .empty t ∧
          stop = .error (.ofFault .cannotInfer)) := by
  obtain ⟨-, -, -, -, -, haccepts, hliteral⟩ := common_is_join
  have hclosed : rowsOfNumbers.Closed :=
    (Store.Closed.fresh.newArray (by simp [Store.Within])).newArray (by simp [Store.Within])
  have htagged : ∀ v ∈ [Value.array ⟨0⟩, .array ⟨1⟩],
      v.isMissing = false ∧ rowsOfNumbers.WellTagged v := by
    have hrow : ∀ (id : ArrayId) (n : Number), rowsOfNumbers.elements id = [.number n] →
        (rowsOfNumbers.block id).element = Ty.ofKind n.kind →
          rowsOfNumbers.WellTagged (.array id) := by
      intro id n helements htag u hu
      rw [helements] at hu
      rw [List.mem_singleton.mp hu, htag]
      exact Store.WellTagged.conform trivial rfl
    refine List.forall_mem_cons.mpr ⟨⟨rfl, hrow ⟨0⟩ (.byte 1) rfl rfl⟩, ?_⟩
    exact List.forall_mem_singleton.mpr ⟨rfl, hrow ⟨1⟩ (.long 2) rfl rfl⟩
  refine ⟨haccepts rowsOfNumbers _ hclosed htagged, ?_⟩
  have hfails : (ofFuel .standard 2).arrayLiteral none missingLast (.initial ⟨false, none, true⟩) =
      .error (.error (.ofFault .cannotInfer)) (.initial ⟨false, none, true⟩) := rfl
  obtain ⟨before, e, after, vs, u, hes, hbefore, he⟩ :=
    (hliteral ⟨false, none, true⟩ _ Reaches.refl.amid 2 none missingLast).2 _ _ hfails
  exact ⟨_, _, before, e, after, vs, u, hfails, hes, hbefore, he⟩

end Evaluator

end BasicScript
