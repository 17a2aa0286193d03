import BasicScript.Proofs.Calls.Trial
import BasicScript.Proofs.Types.Storage

/-! # Resolution of calls

For values, the choice of an overload depends on nothing but the visible
overloads and what their parameters accept. Only for the overload that was
chosen are defaults evaluated, those of the places that were left open, each
once and in the order of the parameters.
-/

namespace BasicScript

/-- The outcome of the choice of an overload, with the store after it. -/
inductive Resolution where
  | undeclared
  | unresolvedPositions
  | unresolvedTypes (store : Store)
  | chosen (sub : Sub) (slots : List (Option Value)) (store : Store)

namespace Resolution

/-- What follows the choice: a fault, or the values for the places of the overload. -/
def finish (name : String) (r : Evaluator) : Resolution → Run (Sub × List Value)
  | undeclared => Run.fail (.undeclared .sub name)
  | unresolvedPositions => Run.fail (.unresolvedPositions name)
  | unresolvedTypes σ => fun s => Run.fail (.unresolvedTypes name) { s with store := σ }
  | chosen sub slots σ => fun s =>
    (do
      let bound ← (sub.params.zip slots).mapM fun place => r.filled sub place.1 place.2
      return (sub, bound) : Run (Sub × List Value)) { s with store := σ }

/-- The outcome is the right one for the values of a call. -/
structure Decides (outcome : Resolution) (s : State) (name : String) (values : List Value) :
    Prop where
  undeclared : outcome = .undeclared ↔ ∀ id ∈ s.env.current, (s.env.scope id).overloads name = []
  positions : outcome = .unresolvedPositions ↔ s.env.overloads name ≠ [] ∧
    ∀ sub ∈ s.env.overloads name, sub.fits values.length = false
  types : (∃ σ, outcome = .unresolvedTypes σ) ↔
    (∃ sub ∈ s.env.overloads name, sub.fits values.length = true) ∧
      ∀ sub ∈ s.env.overloads name, sub.fits values.length = true → ¬ sub.Accepts s.store values
  chosen : ∀ sub, (∃ slots σ, outcome = .chosen sub slots σ) ↔
    Sub.Preferred (fun sub => sub.fits values.length = true ∧ sub.Accepts s.store values)
      (s.env.overloads name) sub
  /-- Overloads that were rejected leave nothing behind but further arrays. -/
  adds : ∀ σ, (outcome = .unresolvedTypes σ ∨ ∃ sub slots, outcome = .chosen sub slots σ) →
    s.store.Adds σ
  binds : ∀ sub slots σ, outcome = .chosen sub slots σ → sub.Binds s.store σ values slots

variable {s : State} {name : String} {values : List Value}

theorem overloads_nil : s.env.overloads name = [] ↔
    ∀ id ∈ s.env.current, (s.env.scope id).overloads name = [] := List.flatMap_eq_nil_iff

theorem decides_undeclared (h : s.env.overloads name = []) : undeclared.Decides s name values where
  undeclared := iff_of_true rfl (overloads_nil.mp h)
  positions := iff_of_false nofun fun hp => hp.1 h
  types := by
    refine iff_of_false nofun ?_
    rintro ⟨⟨sub, hsub, -⟩, -⟩
    exact List.ne_nil_of_mem hsub h
  chosen sub := iff_of_false nofun fun hp => List.ne_nil_of_mem hp.mem h
  adds := nofun
  binds := nofun

theorem decides_positions (hsome : s.env.overloads name ≠ [])
    (h : ∀ sub ∈ s.env.overloads name, sub.fits values.length = false) :
    unresolvedPositions.Decides s name values where
  undeclared := iff_of_false nofun fun hscopes => hsome (overloads_nil.mpr hscopes)
  positions := iff_of_true rfl ⟨hsome, h⟩
  types := by
    refine iff_of_false nofun ?_
    rintro ⟨⟨sub, hsub, hfits⟩, -⟩
    exact nomatch (h sub hsub).symm.trans hfits
  chosen sub := iff_of_false nofun fun hp =>
    nomatch (h sub hp.mem).symm.trans hp.accepts_self.1
  adds := nofun
  binds := nofun

theorem decides_types {σ : Store} (hadds : s.store.Adds σ)
    (hsome : ∃ sub ∈ s.env.overloads name, sub.fits values.length = true)
    (h : ∀ sub ∈ s.env.overloads name, sub.fits values.length = true →
      ¬ sub.Accepts s.store values) : (unresolvedTypes σ).Decides s name values where
  undeclared := by
    refine iff_of_false nofun fun hscopes => ?_
    obtain ⟨sub, hsub, -⟩ := hsome
    exact List.ne_nil_of_mem hsub (overloads_nil.mpr hscopes)
  positions := by
    refine iff_of_false nofun fun hp => ?_
    obtain ⟨sub, hsub, hfits⟩ := hsome
    exact nomatch (hp.2 sub hsub).symm.trans hfits
  types := iff_of_true ⟨σ, rfl⟩ ⟨hsome, h⟩
  chosen sub := iff_of_false nofun fun hp => h sub hp.mem hp.accepts_self.1 hp.accepts_self.2
  adds := by
    rintro _ (h | ⟨_, _, h⟩) <;> cases h
    exact hadds
  binds := nofun

theorem decides_chosen {sub : Sub} {slots : List (Option Value)} {σ : Store}
    (hadds : s.store.Adds σ) (hbinds : sub.Binds s.store σ values slots)
    (h : Sub.Preferred (fun sub => sub.fits values.length = true ∧ sub.Accepts s.store values)
      (s.env.overloads name) sub) : (chosen sub slots σ).Decides s name values where
  undeclared := iff_of_false nofun fun hscopes =>
    List.ne_nil_of_mem h.mem (overloads_nil.mpr hscopes)
  positions := iff_of_false nofun fun hp =>
    nomatch (hp.2 sub h.mem).symm.trans h.accepts_self.1
  types := iff_of_false nofun fun ht => ht.2 sub h.mem h.accepts_self.1 h.accepts_self.2
  chosen other := by
    refine ⟨?_, fun hother => ⟨slots, σ, by rw [h.unique hother]⟩⟩
    rintro ⟨_, _, heq⟩
    cases heq
    exact h
  adds := by
    rintro _ (h | ⟨_, _, h⟩) <;> cases h
    exact hadds
  binds := by
    rintro _ _ _ h
    cases h
    exact hbinds

end Resolution

theorem Sub.Binds.mono {sub : Sub} {σ₀ σ σ' : Store} {values : List Value}
    {slots : List (Option Value)} (h : sub.Binds σ σ' values slots) (hbefore : σ₀.Adds σ) :
    sub.Binds σ₀ σ' values slots where
  length := h.length
  fixed i p hp := by
    obtain ⟨slot, hslot, htakes⟩ := h.fixed i p hp
    exact ⟨slot, hslot, htakes.mono hbefore (.refl σ')⟩
  tail p element hp helement := by
    obtain ⟨id, ws, hslot, hnew, harray, hws⟩ := h.tail p element hp helement
    exact ⟨id, ws, hslot, hbefore.size_le.trans hnew, harray,
      hws.imp fun v w hvw => hvw.mono hbefore (.refl σ')⟩

namespace Evaluator

variable {s : State} {values : List Value}

theorem fillDefaults_eq (r : Evaluator) (sub : Sub) (ps : List Parameter)
    (slots : List (Option Value)) :
    r.fillDefaults sub ps slots =
      (ps.zip slots).mapM fun place => r.filled sub place.1 place.2 := by
  induction ps generalizing slots with
  | nil =>
    rw [List.zip_nil_left, List.mapM_nil]
    rfl
  | cons p ps ih =>
    cases slots with
    | nil =>
      rw [List.zip_nil_right, List.mapM_nil]
      rfl
    | cons slot slots => rw [fillDefaults, List.zip_cons_cons, List.mapM_cons, ih]

/-- The candidates are tried one after another, up to the first that accepts the values. -/
theorem firstAccepting_values (name : String) (candidates : List Sub) (hσ : s.store.Closed)
    (hvalues : ∀ v ∈ values, s.store.Within v) :
    (∃ before sub after slots σ, candidates = before ++ sub :: after ∧
      (∀ other ∈ before, ¬ other.Accepts s.store values) ∧ sub.Accepts s.store values ∧
      s.store.Adds σ ∧ sub.Binds s.store σ values slots ∧
      ∀ r : Evaluator, r.firstAccepting name (values.map .ready) candidates s =
        (Resolution.chosen sub slots σ).finish name r s) ∨
    (∀ other ∈ candidates, ¬ other.Accepts s.store values) ∧ ∃ σ, s.store.Adds σ ∧
      ∀ r : Evaluator, r.firstAccepting name (values.map .ready) candidates s =
        (Resolution.unresolvedTypes σ).finish name r s := by
  induction candidates generalizing s with
  | nil => exact .inr ⟨fun _ ho => (nomatch ho), s.store, .refl _, fun r => rfl⟩
  | cons first rest ih =>
    cases Trial.bindArguments first hσ hvalues with
    | passed σ slots haccepts hadds hσ' hbinds hrun =>
      refine .inl ⟨[], first, rest, slots, σ, rfl, fun _ ho => (nomatch ho), haccepts, hadds,
        hbinds, fun r => ?_⟩
      simp only [firstAccepting, Run.either, hrun r, fillDefaults_eq]
      rfl
    | rejected σ e haccepts hadds hσ' he hrun =>
      have hnext : ∀ r : Evaluator, r.firstAccepting name (values.map .ready) (first :: rest) s =
          r.firstAccepting name (values.map .ready) rest { s with store := σ } := by
        intro r
        simp only [firstAccepting, Run.either, hrun r, he, if_true]
      have halike : ∀ other : Sub, other.Accepts σ values → other.Accepts s.store values :=
        fun other => (other.accepts_adds hadds hσ hσ' hvalues).mpr
      rcases ih (s := { s with store := σ }) hσ' (fun v hv => (hvalues v hv).adds hadds) with
        ⟨before, sub, after, slots, σ', rfl, hbefore, hsub, hadds', hbinds, hrun'⟩ |
        ⟨hnone, σ', hadds', hrun'⟩
      · refine .inl ⟨first :: before, sub, after, slots, σ', rfl, ?_, halike sub hsub,
          hadds.trans hadds', hbinds.mono hadds, fun r => (hnext r).trans (hrun' r)⟩
        exact List.forall_mem_cons.mpr ⟨haccepts, fun other ho h => hbefore other ho
          ((other.accepts_adds hadds hσ hσ' hvalues).mp h)⟩
      · refine .inr ⟨List.forall_mem_cons.mpr ⟨haccepts, fun other ho h => hnone other ho
          ((other.accepts_adds hadds hσ hσ' hvalues).mp h)⟩, σ', hadds.trans hadds',
          fun r => (hnext r).trans (hrun' r)⟩

variable {name : String}

/-- The candidates that are tried, or the fault that there are none. -/
theorem fittingOverloads_run (name : String) (count : Nat) (s : State) :
    fittingOverloads name count s =
      if s.env.overloads name = [] then Run.fail (.undeclared .sub name) s
      else if (s.env.overloads name).filter (·.fits count) = [] then
        Run.fail (.unresolvedPositions name) s
      else .ok (Sub.byArity ((s.env.overloads name).filter (·.fits count))) s := by
  have hread : (Run.read fun s => s.env.overloads name) s = .ok (s.env.overloads name) s := rfl
  refine (Run.bind_ok hread _).trans ?_
  generalize s.env.overloads name = candidates
  generalize hfitting : candidates.filter (·.fits count) = fitting
  cases candidates with
  | nil => rfl
  | cons first rest => cases fitting <;> rfl

/-- For values of the store some outcome is the right one, and every evaluator finishes it in its
way; an error there is an error of the call. -/
theorem resolveOverload_values (name : String) (hσ : s.store.Closed)
    (hvalues : ∀ v ∈ values, s.store.Within v) :
    ∃ outcome : Resolution, outcome.Decides s name values ∧
      ∀ r : Evaluator,
        r.resolveOverload name (values.map .ready) s = outcome.finish name r s ∧
        ∀ span e t, outcome.finish name r s = .error e t →
          r.callPending name (values.map .ready) span s = .error e t := by
  have hcall : ∀ (r : Evaluator) (outcome : Resolution),
      r.resolveOverload name (values.map .ready) s = outcome.finish name r s →
        r.resolveOverload name (values.map .ready) s = outcome.finish name r s ∧
        ∀ span e t, outcome.finish name r s = .error e t →
          r.callPending name (values.map .ready) span s = .error e t :=
    fun r outcome h => ⟨h, fun span e t he => Run.bind_error (h.trans he) _⟩
  have hresolve : ∀ r : Evaluator, r.resolveOverload name (values.map .ready) s =
      (fittingOverloads name values.length >>= r.firstAccepting name (values.map .ready)) s := by
    intro r
    rw [resolveOverload, List.length_map]
  have hrun := fittingOverloads_run name values.length s
  by_cases hsome : s.env.overloads name = []
  · rw [if_pos hsome] at hrun
    exact ⟨.undeclared, Resolution.decides_undeclared hsome,
      fun r => hcall r _ ((hresolve r).trans (Run.bind_error hrun _))⟩
  rw [if_neg hsome] at hrun
  by_cases hfit : (s.env.overloads name).filter (·.fits values.length) = []
  · rw [if_pos hfit] at hrun
    refine ⟨.unresolvedPositions, Resolution.decides_positions hsome fun sub hsub => ?_,
      fun r => hcall r _ ((hresolve r).trans (Run.bind_error hrun _))⟩
    exact Bool.eq_false_of_not_eq_true (List.filter_eq_nil_iff.mp hfit sub hsub)
  rw [if_neg hfit] at hrun
  have hfirst : ∀ r : Evaluator, r.resolveOverload name (values.map .ready) s =
      r.firstAccepting name (values.map .ready)
        (Sub.byArity ((s.env.overloads name).filter (·.fits values.length))) s :=
    fun r => (hresolve r).trans (Run.bind_ok hrun _)
  rcases firstAccepting_values name
    (Sub.byArity ((s.env.overloads name).filter (·.fits values.length))) hσ hvalues with
    ⟨before, sub, after, slots, σ, hsplit, hbefore, hsub, hadds, hbinds, hchosen⟩ |
    ⟨hnone, σ, hadds, htypes⟩
  · exact ⟨.chosen sub slots σ,
      Resolution.decides_chosen hadds hbinds (Sub.byArity_preferred hsplit hbefore hsub).of_filter,
      fun r => hcall r _ ((hfirst r).trans (hchosen r))⟩
  · refine ⟨.unresolvedTypes σ, Resolution.decides_types hadds ?_ fun sub hsub hfits => ?_,
      fun r => hcall r _ ((hfirst r).trans (htypes r))⟩
    · obtain ⟨sub, hsub⟩ := List.exists_mem_of_ne_nil _ hfit
      exact ⟨sub, List.mem_filter.mp hsub⟩
    · exact hnone sub (Sub.mem_byArity.mpr (List.mem_filter.mpr ⟨hsub, hfits⟩))

end Evaluator

/-- No value of a state that programs reach leads out of its store. -/
theorem Reaches.closed {settings : Settings} {s : State}
    (h : Reaches .standard (.initial settings) s) : s.store.Closed := h.typed.store.closed

/-- The program `sub f(a int) { } sub f(a any, b int*) { }`. -/
def declaringOverloads : List Stmt :=
  [.generated (.sub (.mk "f" [⟨"a", .prim .int, none⟩] .inferred [] false)),
    .generated (.sub (.mk "f" [⟨"a", .prim .any, none⟩, ⟨"b", .vararg (.prim .int), none⟩] .inferred
      [] false))]

theorem resolveOverload_declaringOverloads :
    let s := ((Evaluator.interrupted .standard (fun _ => false) 4).run declaringOverloads).state
      (.initial ⟨false, none, true⟩)
    s.store.Closed ∧ (∀ v ∈ [Value.int 5], s.store.Within v) ∧ (s.env.overloads "f").length = 2 ∧
      ∃ outcome : Resolution, outcome.Decides s "f" [.int 5] ∧
        ∀ r : Evaluator, r.resolveOverload "f" [.ready (.int 5)] s = outcome.finish "f" r s := by
  intro s
  have hclosed : s.store.Closed :=
    Reaches.closed (.run declaringOverloads _ 4 .refl)
  have hwithin : ∀ v ∈ [Value.int 5], s.store.Within v := by
    intro v hv
    cases List.mem_singleton.mp hv
    trivial
  obtain ⟨outcome, hdecides, hfinish⟩ := Evaluator.resolveOverload_values "f" hclosed hwithin
  exact ⟨hclosed, hwithin, by decide, outcome, hdecides, fun r => (hfinish r).1⟩

/-- The overload `f(a int*, b int)`: its first parameter has the type of a tail. -/
def leadingTail : Sub where
  name := "f"
  params := [⟨"a", .vararg (.prim .int), none⟩, ⟨"b", .prim .int, none⟩]
  returns := .prim .int
  body := []
  signature := "f(int*,int)"
  scope := globalPath
  native := false

/-- A state that has an overload and no other declaration. -/
def State.declaring (sub : Sub) : State :=
  let s := State.initial ⟨false, none, true⟩
  { s with env := s.env.addSub sub }

/-- An empty argument for a parameter with the type of a tail is rejected, although all arguments
that are not empty are accepted. -/
theorem resolveOverload_leadingTail :
    let s := State.declaring leadingTail
    let values := [Value.empty, .int 5]
    s.env.overloads "f" = [leadingTail] ∧ leadingTail.fits values.length = true ∧
      leadingTail.vararg?.isNone = true ∧
      (∀ (i : Nat) (p : Parameter) (v : Value), leadingTail.params[i]? = some p →
        values[i]? = some v → v.isMissing = true ∨ p.type.Accepts s.store v) ∧
      ∀ r : Evaluator, r.resolveOverload "f" (values.map .ready) s =
        Run.fail (.unresolvedTypes "f") s := by
  refine ⟨by rfl, by decide, by decide, ?_, fun r => rfl⟩
  rintro (_ | _ | i) p v hp hv
  · cases hv
    exact .inl rfl
  · cases hp
    cases hv
    exact .inr ⟨_, _, rfl⟩
  · exact nomatch hp

end BasicScript
