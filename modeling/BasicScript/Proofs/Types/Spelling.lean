import BasicScript.Proofs.Types.Detour
import BasicScript.Proofs.Types.Entries
import BasicScript.Proofs.Types.Length
import BasicScript.Proofs.Types.Literal

/-! # Two spellings of an array

A declaration may spell its array with brackets or with braces. Brackets bring
the elements to the type that they share, and only then to the declared one;
braces fit each element at once, before the next is evaluated. Where both
accept the elements, the variables hold arrays that look the same.
-/

namespace BasicScript

/-- An array of the type, whose elements look like what a place of the type makes of values in
another store. -/
structure Store.HoldsFitted (σ : Store) (id : ArrayId) (t : Ty) (τ : Store) (vs : List Value) :
    Prop where
  element : (σ.block id).element = t
  values : List.Forall₂ (fun v x => ∃ w ρ, t.conform τ v = .ok (w, ρ) ∧ ρ.SameShape w σ x) vs
    (σ.elements id)

namespace Ty

variable {t c : Ty} {τ σ σ' : Store} {v w x : Value} {vs ws : List Value} {id : ArrayId}

/-- What a place makes of a value that it accepts has the shape that coercion makes. -/
theorem conform_of_shape (hτ : τ.Closed) (hv : τ.Within v) (haccepts : t.Accepts τ v)
    (hshape : ∀ depth, σ.shape depth x = t.refit (τ.shape depth v)) :
    ∃ w ρ, t.conform τ v = .ok (w, ρ) ∧ ρ.SameShape w σ x := by
  obtain ⟨w, ρ, hconform⟩ := haccepts
  refine ⟨w, ρ, hconform, fun depth => ?_⟩
  rw [hshape, (Became.now hτ hv (conform_ok.mp hconform).1).shape hτ hv]

/-- An array that passed a place bears the element type of the place. -/
theorem conform_tag {element : Ty} (ht : t.element? = some element)
    (hany : element.acceptsAnything = false) (h : t.conform σ v = .ok (.array id, σ')) :
    (σ'.block id).element = element := by
  have hsettled := coerce_settles (conform_ok.mp h).1 (.refl σ')
  rw [coerce_array ht] at hsettled
  exact ((coerceElements_same_iff hany).mp hsettled).1

/-- An array whose elements came by way of their common type is fitted to the declared one. -/
theorem conform_detour (ht : t.exact = true) (hτ : τ.Closed)
    (hvs : ∀ v ∈ vs, τ.Within v ∧ ∃ a : Ty, a.common c = c ∧ a.conform τ v = .ok (v, τ))
    (hσ : τ.Later σ) (hbecame : List.Forall₂ (c.Became τ σ) vs (σ.elements id)) :
    ((array t none).Accepts σ (.array id) ↔
      ∀ v ∈ vs, t.Accepts τ v ∧ c.overshoots τ t v = false) ∧
    ∀ w σ', (array t none).conform σ (.array id) = .ok (w, σ') →
      ∃ id', w = .array id' ∧ σ'.HoldsFitted id' t τ vs := by
  have hnot := exact_not_any ht
  have hdetour : List.Forall₂ (fun v x =>
      (t.Accepts τ v ∧ c.overshoots τ t v = false ↔ t.Accepts σ x) ∧
      (t.Accepts σ x → ∀ depth, t.refit (σ.shape depth x) = t.refit (τ.shape depth v)))
      vs (σ.elements id) := by
    refine forall₂_of_mem hbecame fun v hv x hx => ?_
    obtain ⟨hin, a, habove, hself⟩ := hvs v hv
    obtain ⟨haccepts, hshape⟩ := c.detours ht habove hself hτ hin hx
    exact ⟨haccepts.symm, hshape⟩
  have hiff : (array t none).Accepts σ (.array id) ↔
      ∀ v ∈ vs, t.Accepts τ v ∧ c.overshoots τ t v = false := by
    rw [accepts_array rfl (accepts_adds t) hσ.closed, hnot,
      forall_mem_iff_of_forall₂ hdetour fun hvx => hvx.1]
    simp only [Bool.false_eq_true, false_or, size?, reduceCtorEq, false_implies, implies_true,
      true_and]
  refine ⟨hiff, fun w σ' hconform => ?_⟩
  have haccepts := hiff.mp ⟨w, σ', hconform⟩
  obtain ⟨id', rfl, -, hall⟩ :=
    coerce_became rfl hnot hσ.closed (conform_ok.mp hconform).1
  have hfirst : List.Forall₂ (fun v x => (τ.Within v ∧ t.Accepts τ v) ∧
      ∀ depth, t.refit (σ.shape depth x) = t.refit (τ.shape depth v)) vs (σ.elements id) :=
    forall₂_of_mem hdetour fun v hv x hx =>
      ⟨⟨(hvs v hv).1, (haccepts v hv).1⟩, hx.2 (hx.1.mp (haccepts v hv))⟩
  have hsecond : List.Forall₂ (fun x y => ∀ depth,
      σ'.shape depth y = t.refit (σ.shape depth x)) (σ.elements id) (σ'.elements id') :=
    forall₂_of_mem hall fun x hx y hxy =>
      hxy.shape hσ.closed (hσ.closed.elements id x hx)
  refine ⟨id', rfl, conform_tag rfl hnot hconform, (forall₂_comp hfirst hsecond).imp ?_⟩
  rintro v y ⟨x, ⟨⟨hin, hv⟩, hvx⟩, hxy⟩
  exact conform_of_shape hτ hin hv fun depth => (hxy depth).trans (hvx depth)

theorem hint?_exact (ht : t.exact = true) : t.hint? = some t :=
  if_neg (by rw [exact_not_any ht]; exact Bool.false_ne_true)

end Ty

/-- Expressions do not take names that a variable of the current scope could have. -/
theorem Frame.takesVariable {s t : State} (h : Frame False s t) (hs : s.env.Nested)
    (name : String) : t.env.takesVariable name = s.env.takesVariable name := by
  simp only [Environment.takesVariable, h.currentScope hs]

/-- What is left after the declaration of a variable with a fitted array. -/
def State.HoldsFitted (s : State) (name : String) (t : Ty) (constant : Bool) (τ : Store)
    (vs : List Value) : Prop :=
  ∃ (u : State) (id : ArrayId), s = u.withVariable name ⟨.array t none, .array id, constant⟩ ∧
    u.store.HoldsFitted id t τ vs

namespace Evaluator

variable {r : Evaluator} {t : Ty} {τ : Store} {e : Expr} {es : List Expr} {vs : List Value}
  {s s₀ s' u : State} {name : String} {written : TypeExpr} {init : Expr} {constant : Bool}
  {stop : Stop} {id : ArrayId}

/-- An element of a brace literal, which is fitted as soon as it is evaluated. -/
def fitted (r : Evaluator) (t : Ty) (e : Expr) : Run Value := do
  Run.conform t (← r.eval t.hint? e)

/-- Though each is fitted before the next is evaluated, the elements look like the given values,
and keep their looks until the literal is complete. -/
def Alike (r : Evaluator) (t : Ty) (τ : Store) : List Expr → List Value → State → Prop
  | [], [], _ => True
  | e :: es, v :: vs, s => ∃ x u, r.eval t.hint? e s = .ok x u ∧ u.store.SameShape x τ v ∧
      ∀ w σ, t.conform u.store x = .ok (w, σ) →
        Alike r t τ es vs { u with store := σ } ∧
        ∀ ws u', es.mapM (r.fitted t) { u with store := σ } = .ok ws u' →
          σ.SameShape w u'.store w
  | _, _, _ => False

/-- A declaration goes on with the array that its literal makes. -/
theorem declareVariable_literal {P : Prop}
    (hwritten : r.resolveType written s = .ok (.array t none) s₀)
    (hinit : r.eval (Ty.array t none).hint? init s₀ = .ok (.array id) u)
    (hname : u.env.takesVariable name = true)
    (haccepts : (Ty.array t none).Accepts u.store (.array id) ↔ P)
    (hfitted : ∀ w σ, (Ty.array t none).conform u.store (.array id) = .ok (w, σ) →
      ∃ id', w = .array id' ∧ σ.HoldsFitted id' t τ vs) :
    ((∃ s', r.declareVariable name written init constant s = .ok () s') ↔ P) ∧
    ∀ s', r.declareVariable name written init constant s = .ok () s' →
      s'.HoldsFitted name t constant τ vs := by
  have hbind : r.declareVariable name written init constant s =
      bind name (.array t none) (.array id) constant u :=
    (Run.bind_ok hwritten _).trans (Run.bind_ok hinit _)
  have hdeclare : ∀ s', r.declareVariable name written init constant s = .ok () s' ↔
      ∃ w σ, (Ty.array t none).conform u.store (.array id) = .ok (w, σ) ∧
        s' = { u with store := σ }.withVariable name ⟨.array t none, w, constant⟩ := by
    intro s'
    rw [hbind]
    exact bind_ok_iff (fun h => nomatch h) hname
  rw [← haccepts]
  refine ⟨⟨?_, ?_⟩, fun s' h => ?_⟩
  · rintro ⟨s', h⟩
    obtain ⟨w, σ, hconform, -⟩ := (hdeclare s').mp h
    exact ⟨w, σ, hconform⟩
  · rintro ⟨w, σ, hconform⟩
    exact ⟨_, (hdeclare _).mpr ⟨w, σ, hconform, rfl⟩⟩
  · obtain ⟨w, σ, hconform, rfl⟩ := (hdeclare s').mp h
    obtain ⟨id', rfl, hid'⟩ := hfitted w σ hconform
    exact ⟨_, id', rfl, hid'⟩

/-- A declaration fails with its literal. -/
theorem declareVariable_refused {P : Prop}
    (hwritten : r.resolveType written s = .ok (.array t none) s₀)
    (hinit : r.eval (Ty.array t none).hint? init s₀ = .error stop u) (hrefused : ¬P) :
    ((∃ s', r.declareVariable name written init constant s = .ok () s') ↔ P) ∧
    ∀ s', r.declareVariable name written init constant s = .ok () s' →
      s'.HoldsFitted name t constant τ vs := by
  have hdeclare : r.declareVariable name written init constant s = .error stop u :=
    (Run.bind_ok hwritten _).trans (Run.bind_error hinit _)
  have hfails : ∀ s', r.declareVariable name written init constant s ≠ .ok () s' := by
    intro s' h
    rw [hdeclare] at h
    cases h
  exact ⟨iff_of_false (fun ⟨s', h⟩ => hfails s' h) hrefused, fun s' h => absurd h (hfails s')⟩

theorem instantiateArray_eq (r : Evaluator) (t : Ty) (es : List Expr) :
    r.instantiateArray t none es = (do
      let ws ← es.mapM (r.fitted t)
      Run.newArray t ws) := by
  unfold instantiateArray
  simp only [Option.getD_none, Nat.lt_irrefl, if_false, Nat.sub_self, List.replicate_zero,
    List.mapM_nil, pure_bind, List.append_nil]
  rfl

/-- The first element of a brace literal is accepted, and comes out looking as it should, or else
the literal fails. -/
theorem Alike.first {v : Value} (hr : r.Sound) (h : r.Alike t τ (e :: es) (v :: vs) s)
    (hs : s.Typed) (hτ : τ.Closed) :
    (t.Accepts τ v ∧ ∃ w s₁, r.fitted t e s = .ok w s₁ ∧ s₁.Typed ∧ r.Alike t τ es vs s₁ ∧
      ∀ ws u, es.mapM (r.fitted t) s₁ = .ok ws u →
        ∀ depth, u.store.shape depth w = t.refit (τ.shape depth v)) ∨
    ¬t.Accepts τ v ∧ ∃ stop u, r.fitted t e s = .error stop u := by
  obtain ⟨x, u, heval, hsame, hrest⟩ := h
  have hsound := hr.eval t.hint? e s hs
  rw [Run.state_ok heval] at hsound
  obtain ⟨hu, -, hvalue⟩ := hsound
  have hx : u.Holds x := hvalue x u heval
  have hhead : t.Accepts u.store x ↔ t.Accepts τ v := Ty.accepts_shape hu.store.closed hτ hsame
  rcases Run.fit_cases t x (fun m got => .ofMismatch t got m) u with
    ⟨w, σ, hconform, hfit⟩ | ⟨m, hconform, hfit⟩
  · obtain ⟨halike, hkeeps⟩ := hrest w σ hconform
    have hbecame : t.Became u.store σ x w :=
      .now hu.store.closed hx.within (Ty.conform_ok.mp hconform).1
    refine .inl ⟨hhead.mp ⟨w, σ, hconform⟩, w, _, (Run.bind_ok heval _).trans hfit, ?_, halike, ?_⟩
    · exact hu.withAdded (Ty.conform_has hconform hu.store hx).1 (Ty.conform_adds hconform)
    · intro ws u' hws depth
      rw [← hkeeps ws u' hws depth, hbecame.shape hu.store.closed hx.within, hsame depth]
  · refine .inr ⟨fun haccepts => ?_, _, u, (Run.bind_ok heval _).trans hfit⟩
    obtain ⟨w, σ, hok⟩ := hhead.mpr haccepts
    rw [hconform] at hok
    cases hok

/-- The elements of a brace literal are accepted where values that look like them are, and come
out looking alike. -/
theorem Alike.fitted (hr : r.Sound) (h : r.Alike t τ es vs s) (hs : s.Typed) (hτ : τ.Closed) :
    ((∃ ws u, es.mapM (r.fitted t) s = .ok ws u) ↔ ∀ v ∈ vs, t.Accepts τ v) ∧
    ∀ ws u, es.mapM (r.fitted t) s = .ok ws u → List.Forall₂ (fun v w =>
      t.Accepts τ v ∧ ∀ depth, u.store.shape depth w = t.refit (τ.shape depth v)) vs ws := by
  induction es generalizing vs s with
  | nil =>
    cases vs with
    | nil =>
      refine ⟨⟨fun _ => List.forall_mem_nil _, fun _ => ⟨[], s, rfl⟩⟩, fun ws u h => ?_⟩
      cases h
      exact .nil
    | cons v vs => exact h.elim
  | cons e es ih =>
    cases vs with
    | nil => exact h.elim
    | cons v vs =>
      rw [List.forall_mem_cons]
      rcases h.first hr hs hτ with ⟨haccepts, w, s₁, hfirst, hs₁, halike, hshape⟩ |
        ⟨hrefused, stop, u, hfirst⟩
      · obtain ⟨hiff, hall⟩ := ih halike hs₁
        have hrow : ∀ ws u, (e :: es).mapM (r.fitted t) s = .ok ws u ↔
            ∃ ws', es.mapM (r.fitted t) s₁ = .ok ws' u ∧ ws = w :: ws' := by
          intro ws u
          rw [Run.mapM_cons_ok, hfirst]
          constructor
          · rintro ⟨w', u', ws', hw', hws', rfl⟩
            cases hw'
            exact ⟨ws', hws', rfl⟩
          · rintro ⟨ws', hws', rfl⟩
            exact ⟨w, s₁, ws', rfl, hws', rfl⟩
        refine ⟨⟨?_, ?_⟩, ?_⟩
        · rintro ⟨ws, u, hws⟩
          obtain ⟨ws', hws', -⟩ := (hrow ws u).mp hws
          exact ⟨haccepts, hiff.mp ⟨ws', u, hws'⟩⟩
        · rintro ⟨-, hvs⟩
          obtain ⟨ws', u, hws'⟩ := hiff.mpr hvs
          exact ⟨w :: ws', u, (hrow _ u).mpr ⟨ws', hws', rfl⟩⟩
        · intro ws u hws
          obtain ⟨ws', hws', rfl⟩ := (hrow ws u).mp hws
          exact .cons ⟨haccepts, hshape ws' u hws'⟩ (hall ws' u hws')
      · have hfails : ∀ ws u, (e :: es).mapM (r.fitted t) s ≠ .ok ws u := by
          intro ws u' hws
          obtain ⟨w, u₁, ws', hw, -, -⟩ := Run.mapM_cons_ok.mp hws
          rw [hfirst] at hw
          cases hw
        refine ⟨⟨?_, fun hvs => absurd hvs.1 hrefused⟩, fun ws u hws => absurd hws (hfails ws u)⟩
        rintro ⟨ws, u, hws⟩
        exact absurd hws (hfails ws u)

theorem Sound.fitted_has (hr : r.Sound) (hs : s.Typed) {ws : List Value}
    (h : es.mapM (r.fitted t) s = .ok ws u) : u.Typed ∧ ∀ w ∈ ws, u.Has t w := by
  obtain ⟨hu, -, hws⟩ := Run.Sound.mapM (Claim.valueOf_stable t) es
    (fun e _ s' _ => (hr.eval t.hint? e s').bind fun v _ _ hv => .conform hv) hs
  rw [show (es.mapM fun e => r.eval t.hint? e >>= Run.conform t) = es.mapM (r.fitted t) from rfl,
    Run.state_ok h] at hu
  exact ⟨hu, (hws ws u h).2⟩

/-- A bracket literal makes an array that a place of the declared type takes where it accepts the
elements and the type that they share does not overshoot it. -/
theorem Sound.brackets_taken (hr : r.Sound) (hs : s.Typed) (ht : t.exact = true)
    {ps : List (Value × Ty)} (hshown : es.mapM (r.shown (some t)) s = .ok ps u) :
    let vs := ps.map Prod.fst
    let c := Ty.joint (vs.filterMap u.store.typeOf?)
    ∃ id u', r.arrayLiteral (some t) es s = .ok (.array id) u' ∧
      ((Ty.array t none).Accepts u'.store (.array id) ↔
        ∀ v ∈ vs, t.Accepts u.store v ∧ c.overshoots u.store t v = false) ∧
      ∀ w σ, (Ty.array t none).conform u'.store (.array id) = .ok (w, σ) →
        ∃ id', w = .array id' ∧ σ.HoldsFitted id' t u.store vs := by
  intro vs c
  obtain ⟨hu, hps⟩ := hr.mapM_shown hs hshown
  obtain ⟨ws, σ, hσ, hws, hrun, hall⟩ := hr.arrayLiteral_shown hs hshown
  have hnew : σ.Later (σ.newArray c ws).2 := ⟨.newArray σ c ws, hσ.closed.newArray hws⟩
  have hvs : ∀ v ∈ vs, u.store.Within v ∧
      ∃ a : Ty, a.common c = c ∧ a.conform u.store v = .ok (v, u.store) := by
    intro v hv
    obtain ⟨p, hp, rfl⟩ := List.mem_map.mp hv
    obtain ⟨hholds, htype⟩ := hps p hp
    exact ⟨hholds.within, p.2, Ty.common_joint (List.mem_filterMap.mpr ⟨_, hv, htype⟩),
      (hu.wellTagged _).conform htype⟩
  have hbecame : List.Forall₂ (c.Became u.store (σ.newArray c ws).2) vs
      ((σ.newArray c ws).2.elements (σ.newArray c ws).1) := by
    rw [Store.elements_newArray]
    refine hall.imp fun v w hvw => ?_
    obtain ⟨σ₁, σ₂, hσ₁, hσ₂, hconform⟩ := hvw
    exact ⟨σ₁, σ₂, hσ₁, hσ₂.trans hnew, (Ty.conform_ok.mp hconform).1⟩
  exact ⟨_, _, hrun, Ty.conform_detour ht hu.store.closed hvs (hσ.trans hnew) hbecame⟩

/-- The array of a brace literal passes a place of the declared type as it is. -/
theorem Sound.braces_taken (hr : r.Sound) (hs : s.Typed) (hτ : τ.Closed)
    (hvs : ∀ v ∈ vs, τ.Within v) {ws : List Value} (hrow : es.mapM (r.fitted t) s = .ok ws u)
    (hall : List.Forall₂ (fun v w => t.Accepts τ v ∧
      ∀ depth, u.store.shape depth w = t.refit (τ.shape depth v)) vs ws) :
    ∃ id u', r.instantiateArray t none es s = .ok (.array id) u' ∧
      (Ty.array t none).conform u'.store (.array id) = .ok (.array id, u'.store) ∧
      u'.store.HoldsFitted id t τ vs := by
  have hrun : r.instantiateArray t none es s =
      .ok (.array (u.store.newArray t ws).1) { u with store := (u.store.newArray t ws).2 } := by
    rw [instantiateArray_eq]
    exact Run.bind_ok hrow _
  have hsound := hr.instantiateArray t none es hs
  rw [Run.state_ok hrun] at hsound
  have hfits : (u.store.newArray t ws).2.Fits (.array t none)
      (.array (u.store.newArray t ws).1) :=
    (Store.fits_array rfl _).mpr ⟨(fun _ hn => nomatch hn), .inr (by rw [Store.block_newArray])⟩
  obtain ⟨hu, hhas⟩ := hr.fitted_has hs hrow
  have hfirst : List.Forall₂ (fun v w => (τ.Within v ∧ t.Accepts τ v) ∧
      ∀ depth, u.store.shape depth w = t.refit (τ.shape depth v)) vs ws :=
    forall₂_of_mem hall fun v hv w hw => ⟨⟨hvs v hv, hw.1⟩, hw.2⟩
  have hstored : List.Forall₂ (fun w x => ∀ depth,
      (u.store.newArray t ws).2.shape depth x = u.store.shape depth w) ws ws :=
    List.forall₂_same.mpr fun w hw =>
      Store.shape_adds (.newArray u.store t ws) hu.store.closed (hhas w hw).holds.within
  refine ⟨_, _, hrun, hfits.conform hsound.1.store, by rw [Store.block_newArray], ?_⟩
  rw [Store.elements_newArray]
  refine (forall₂_comp hfirst hstored).imp ?_
  rintro v x ⟨w, ⟨⟨hin, haccepts⟩, hvw⟩, hwx⟩
  exact Ty.conform_of_shape hτ hin haccepts fun depth => (hwx depth).trans (hvw depth)

/-- Evaluation of a bracket literal for a place of arrays. -/
theorem eval_brackets (fuel : Nat) (ht : t.exact = true) (es : List Expr) (span : Span) :
    (ofFuel .standard (fuel + 1)).eval (Ty.array t none).hint? (.mk (.array es) span) =
      Run.atSpan span ((ofFuel .standard fuel).arrayLiteral (some t) es) := by
  rw [← Ty.hint?_exact ht]
  rfl

variable {fuel : Nat} {span : Span} {s₁ : State} {settings : Settings}

/-- A declaration with brackets succeeds where the declared type accepts the elements, and the type
that they share does not overshoot it. -/
theorem brackets_fitted (span : Span) (constant : Bool) (hs : s₀.Amid settings)
    (ht : t.exact = true)
    (hwritten : (ofFuel .standard (fuel + 1)).resolveType written s = .ok (.array t none) s₀)
    (hname : s₀.env.takesVariable name = true)
    (hes : es.mapM ((ofFuel .standard fuel).eval (some t)) s₀ = .ok vs s₁) :
    let c := Ty.joint (vs.filterMap s₁.store.typeOf?)
    let declare := (ofFuel .standard (fuel + 1)).declareVariable name written
      (.mk (.array es) span) constant
    ((∃ u, declare s = .ok () u) ↔
      ∀ v ∈ vs, t.Accepts s₁.store v ∧ c.overshoots s₁.store t v = false) ∧
    ∀ u, declare s = .ok () u → u.HoldsFitted name t constant s₁.store vs := by
  intro c declare
  have hr := standard_sound fuel
  cases hshown : es.mapM ((ofFuel .standard fuel).shown (some t)) s₀ with
  | ok ps u =>
    have heval := eval_of_shown hshown
    rw [hes] at heval
    cases heval
    obtain ⟨id, u, hrun, haccepts, hfitted⟩ := hr.brackets_taken hs.typed ht hshown
    have hframe := ((ofFuel_precedes_self (c := False) Library.standard_framed fuel).arrayLiteral
      (o := False) (some t) es).frame_ok hrun
    have hinit := Run.atSpan_ok span hrun
    rw [← eval_brackets fuel ht] at hinit
    exact declareVariable_literal hwritten hinit
      ((hframe.takesVariable hs.nested name).trans hname) haccepts hfitted
  | error stop u =>
    have hliteral : (ofFuel .standard fuel).arrayLiteral (some t) es s₀ = .error stop u := by
      rw [arrayLiteral_eq]
      exact Run.bind_error hshown _
    have hinit := Run.atSpan_error span hliteral
    rw [← eval_brackets fuel ht] at hinit
    refine declareVariable_refused hwritten hinit fun haccepts => ?_
    -- an element is missing, and the declared type does not accept it
    obtain ⟨ps, hps, -⟩ := shown_of_evals hes fun v hv => Value.isMissing_eq_false fun hempty =>
      Ty.not_accepts_empty t s₁.store (hempty ▸ (haccepts v hv).1)
    rw [hshown] at hps
    cases hps

/-- A declaration with braces succeeds where the declared type accepts values that look like the
elements. -/
theorem braces_fitted (span : Span) (constant : Bool) (hs : s₀.Amid settings) (hτ : τ.Closed)
    (hvs : ∀ v ∈ vs, τ.Within v)
    (hwritten : (ofFuel .standard (fuel + 1)).resolveType written s = .ok (.array t none) s₀)
    (hname : s₀.env.takesVariable name = true)
    (halike : (ofFuel .standard fuel).Alike t τ es vs s₀) :
    let declare := (ofFuel .standard (fuel + 1)).declareVariable name written
      (.mk (.instantiate none es) span) constant
    ((∃ u, declare s = .ok () u) ↔ ∀ v ∈ vs, t.Accepts τ v) ∧
    ∀ u, declare s = .ok () u → u.HoldsFitted name t constant τ vs := by
  intro declare
  have hr := standard_sound fuel
  obtain ⟨hiff, hall⟩ := halike.fitted hr hs.typed hτ
  cases hrow : es.mapM ((ofFuel .standard fuel).fitted t) s₀ with
  | ok ws u =>
    obtain ⟨id, u', hrun, hconform, hholds⟩ :=
      hr.braces_taken hs.typed hτ hvs hrow (hall ws u hrow)
    have hframe := ((ofFuel_precedes_self (c := False) Library.standard_framed
      fuel).instantiateArray (o := False) t none es).frame_ok hrun
    refine declareVariable_literal hwritten (Run.atSpan_ok span hrun)
      ((hframe.takesVariable hs.nested name).trans hname)
      (iff_of_true ⟨_, _, hconform⟩ (hiff.mp ⟨ws, u, hrow⟩)) fun w σ hw => ?_
    rw [hconform] at hw
    cases hw
    exact ⟨id, rfl, hholds⟩
  | error stop u =>
    have hrun : (ofFuel .standard fuel).instantiateArray t none es s₀ = .error stop u := by
      rw [instantiateArray_eq]
      exact Run.bind_error hrow _
    refine declareVariable_refused hwritten (Run.atSpan_error span hrun) fun haccepts => ?_
    obtain ⟨ws, u', hws⟩ := hiff.mpr haccepts
    rw [hrow] at hws
    cases hws

/-- The two spellings of a declaration of arrays, for element types built from `bool`, the whole
numbers, `char`, `string`, data types, enums and arrays of such. With brackets it succeeds exactly
if all elements conform to the declared type and none of them holds a number that the type they
share makes wider than the declared one. With braces, which fit each element before the next one is
evaluated, it succeeds exactly if they conform, provided the elements still look the same then. In
both cases the array is tagged with the declared type and its elements look like the conformed
values. -/
theorem spellings_agree (span : Span) (constant : Bool) (hs : s₀.Amid settings)
    (ht : t.exact = true)
    (hwritten : (ofFuel .standard (fuel + 1)).resolveType written s = .ok (.array t none) s₀)
    (hname : s₀.env.takesVariable name = true)
    (hes : es.mapM ((ofFuel .standard fuel).eval (some t)) s₀ = .ok vs s₁) :
    let c := Ty.joint (vs.filterMap s₁.store.typeOf?)
    let brackets := (ofFuel .standard (fuel + 1)).declareVariable name written
      (.mk (.array es) span) constant
    let braces := (ofFuel .standard (fuel + 1)).declareVariable name written
      (.mk (.instantiate none es) span) constant
    ((∃ u, brackets s = .ok () u) ↔
      ∀ v ∈ vs, t.Accepts s₁.store v ∧ c.overshoots s₁.store t v = false) ∧
    (∀ u, brackets s = .ok () u → u.HoldsFitted name t constant s₁.store vs) ∧
    ((ofFuel .standard fuel).Alike t s₁.store es vs s₀ →
      ((∃ u, braces s = .ok () u) ↔ ∀ v ∈ vs, t.Accepts s₁.store v) ∧
      ∀ u, braces s = .ok () u → u.HoldsFitted name t constant s₁.store vs) := by
  intro c brackets braces
  obtain ⟨hs₁, -, hvs⟩ := Run.Sound.mapM Claim.value_stable es
    (fun e _ u _ => (standard_sound fuel).eval (some t) e u) hs.typed
  rw [Run.state_ok hes] at hs₁
  have hwithin : ∀ v ∈ vs, s₁.store.Within v := fun v hv => ((hvs vs s₁ hes).2 v hv).within
  obtain ⟨hiff, hfitted⟩ := brackets_fitted span constant hs ht hwritten hname hes
  exact ⟨hiff, hfitted, braces_fitted span constant hs hs₁.store.closed hwithin hwritten hname⟩

/-- The elements `1, 2L`. -/
def twoKinds : List Expr :=
  [.generated (.literal (.int 1)), .generated (.literal (.long 2))]

/-- Both `var a as long[] = [1, 2L]` and the same with braces declare an array of the two long
numbers. -/
theorem spellings_agree_twoKinds :
    let s := State.initial ⟨false, none, true⟩
    let vs := [Value.number (.int 1), .number (.long 2)]
    let declare := fun kind => (ofFuel .standard 2).declareVariable "a"
      (.array (.prim .long) none) (.mk kind .nowhere) false s
    (∃ u, declare (.array twoKinds) = .ok () u ∧
      u.HoldsFitted "a" (.prim .long) false s.store vs) ∧
    ∃ u, declare (.instantiate none twoKinds) = .ok () u ∧
      u.HoldsFitted "a" (.prim .long) false s.store vs := by
  intro s vs declare
  have haccepts : ∀ v ∈ vs, (Ty.prim .long).Accepts s.store v := by
    refine List.forall_mem_cons.mpr ⟨⟨_, _, rfl⟩, List.forall_mem_singleton.mpr ⟨_, _, rfl⟩⟩
  have halike : (ofFuel .standard 1).Alike (.prim .long) s.store twoKinds vs s := by
    refine ⟨_, _, rfl, .refl _ _, fun w σ h => ?_⟩
    cases h
    refine ⟨⟨_, _, rfl, .refl _ _, fun w σ h => ?_⟩, fun ws u h => ?_⟩
    · cases h
      exact ⟨trivial, fun ws u h => by cases h; exact .refl _ _⟩
    · cases h
      exact .refl _ _
  have hs : s.Amid ⟨false, none, true⟩ := Reaches.refl.amid
  have hwritten : (ofFuel .standard 2).resolveType (.array (.prim .long) none) s =
      .ok (.array (.prim .long) none) s := rfl
  have hname : s.env.takesVariable "a" = true := rfl
  have hes : twoKinds.mapM ((ofFuel .standard 1).eval (some (.prim .long))) s = .ok vs s := rfl
  obtain ⟨hbrackets, hbracketed, hbraces⟩ :=
    spellings_agree .nowhere false hs rfl hwritten hname hes
  obtain ⟨hbraces, hbraced⟩ := hbraces halike
  obtain ⟨u, hu⟩ := hbrackets.mpr fun v hv => ⟨haccepts v hv, by revert v; decide⟩
  obtain ⟨u', hu'⟩ := hbraces.mpr haccepts
  exact ⟨⟨u, hu, hbracketed u hu⟩, u', hu', hbraced u' hu'⟩

/-- The program `var l as long[] = []`. -/
def declaringNoLongs : List Stmt :=
  [.generated (.declare "l" (.array (.prim .long) none) (.generated (.array [])) false)]

/-- The elements `l, [1]`. -/
def rowsBesideLongs : List Expr :=
  [.generated (.name "l"), .generated (.array [.generated (.literal (.int 1))])]

/-- After `var l as long[] = []`, the elements `l` and `[1]` both conform to `int[]`, and
`var a as int[][]` takes them in braces. In brackets they are refused: the tag of the array `l`,
which has no elements, makes `long[]` the type that they share, and the number long. -/
theorem brackets_overshoot :
    let s := ((interrupted .standard (fun _ => false) 6).run declaringNoLongs).state
      (.initial ⟨false, none, true⟩)
    let t := Ty.array (.prim .int) none
    let declare := fun kind => (ofFuel .standard 6).declareVariable "a"
      (.array (.array (.prim .int) none) none) (.mk kind .nowhere) false s
    Reaches .standard (.initial ⟨false, none, true⟩) s ∧
    (∃ vs s₁, rowsBesideLongs.mapM ((ofFuel .standard 5).eval (some t)) s = .ok vs s₁ ∧
      ∀ v ∈ vs, t.Accepts s₁.store v) ∧
    (¬∃ u, declare (.array rowsBesideLongs) = .ok () u) ∧
    messageOf? (declare (.array rowsBesideLongs)) =
      some "mismatched type: expected `int[][]`, got `long[][]`" ∧
    ∃ u, declare (.instantiate none rowsBesideLongs) = .ok () u := by
  intro s t declare
  have hmessage : messageOf? (declare (.array rowsBesideLongs)) =
      some "mismatched type: expected `int[][]`, got `long[][]`" := by decide +kernel
  refine ⟨.run declaringNoLongs (fun _ => false) 6 .refl, ⟨_, _, rfl, ?_⟩, ?_, hmessage, _, rfl⟩
  · exact List.forall_mem_cons.mpr ⟨⟨_, _, rfl⟩, List.forall_mem_singleton.mpr ⟨_, _, rfl⟩⟩
  · rintro ⟨u, hu⟩
    rw [hu] at hmessage
    cases hmessage

end Evaluator

end BasicScript
