import BasicScript.Proofs.Frame.Visits

/-! # The limit of calls

A run that does not overflow the stack of calls is the same under any higher
limit. An overflow is never made up for: no rule goes on after one, so that
what an overflow is replaced with makes a difference to overflowing runs alone.
-/

namespace BasicScript

/-- The state with another limit for calls. -/
def State.withLimit (s : State) (limit : Option Nat) : State :=
  { s with calls := ⟨s.calls.frames, limit⟩ }

/-- The same outcome with another limit for calls. -/
def Run.resultWithLimit {α : Type} (limit : Option Nat) :
    EStateM.Result Stop State α → EStateM.Result Stop State α
  | .ok a s => .ok a (s.withLimit limit)
  | .error e s => .error e (s.withLimit limit)

/-- Calls have no less room under the second limit than under the first. -/
def Raises (limit limit' : Option Nat) : Prop := ∀ m ∈ limit', ∃ n ∈ limit, n ≤ m

theorem Raises.refl (limit : Option Nat) : Raises limit limit := fun m hm => ⟨m, hm, le_rfl⟩

/-- Puts something else in the place of an overflow. -/
def Run.replacing {α : Type} (other : Report → Run α) (x : Run α) : Run α := fun s =>
  match x s with
  | .error (.error e) t =>
    match e.fault with
    | .stackOverflow _ => other e t
    | _ => .error (.error e) t
  | outcome => outcome

/-- The hook that puts something else in the place of every overflow. -/
def Hook.replacing (value : Report → Run Value) (flow : Report → Run Flow) : Hook :=
  ⟨Run.replacing value, Run.replacing flow⟩

namespace Run

variable {α : Type} {other : Report → Run α} {x : Run α} {s t : State}

theorem replacing_ok {a : α} (h : x s = .ok a t) : replacing other x s = .ok a t := by
  simp only [replacing, h]

theorem replacing_error {e : Stop} (h : x s = .error e t) (he : ¬e.Overflows) :
    replacing other x s = .error e t := by
  cases e with
  | outOfFuel => simp only [replacing, h]
  | error e =>
    simp only [replacing, h]
    split
    · next n hn => exact absurd ⟨n, hn⟩ he
    · rfl

end Run

namespace Recast

/-- The recasting that puts one limit in the place of another, and takes no account of overflows. -/
def raising (limit limit' : Option Nat) (h : Raises limit limit') : Recast :=
  { same with
    limit l := if l = limit then limit' else l
    raises l m hm := by
      split at hm
      · next heq => exact heq ▸ h m hm
      · exact ⟨m, hm, le_rfl⟩
    lossy := True
    exact hexact := absurd trivial hexact }

theorem raising_state {limit limit' : Option Nat} {h : Raises limit limit'} {s : State}
    (hs : s.calls.limit = limit) : (raising limit limit' h).state s = s.withLimit limit' := by
  rw [state_of_id rfl]
  have hlimit : (raising limit limit' h).limit s.calls.limit = limit' := if_pos hs
  rw [hlimit]
  rfl

/-- What is put in the place of overflows makes no difference where no account is taken of them. -/
theorem Maps.replacing {R : Recast} {α β : Type} {g : α → β} {x : Run α} {y : Run β}
    (hlossy : R.lossy) (other : Report → Run β) (h : R.Maps g x y) :
    R.Maps g x (Run.replacing other y) := by
  intro s hs
  replace h := h s hs
  cases hrun : x s with
  | ok a t =>
    rw [hrun] at h
    obtain ⟨ht, ha, hy⟩ := h.ok
    exact ⟨⟨ht, ha⟩, .inl (Run.replacing_ok hy)⟩
  | error e t =>
    rw [hrun] at h
    obtain ⟨ht, hy⟩ := h.error
    by_cases hover : e.Overflows
    · exact .of_error ht (.inr ⟨hlossy, hover⟩)
    · refine .of_error ht (.inl (Run.replacing_error (hy.resolve_right fun ho => hover ho.2) ?_))
      cases e with
      | outOfFuel => exact hover
      | error e => exact hover

end Recast

namespace Evaluator

variable {s : State} (program : List Stmt) (fuel : Nat)

/-- Programs leave the stack of calls as it was. -/
theorem run_calls (s : State) : (((ofFuel .standard fuel).run program).state s).calls = s.calls :=
  (((ofFuel_precedes_self (c := False) Library.standard_framed fuel).run program).frame s).calls

/-- A run that does not overflow the stack of calls is the same under a higher limit. -/
theorem run_withLimit (hs : s.env.Nested) {limit : Option Nat} (h : Raises s.calls.limit limit)
    (hover : ¬Run.Overflowed ((ofFuel .standard fuel).run program s)) :
    (ofFuel .standard fuel).run program (s.withLimit limit) =
      Run.resultWithLimit limit ((ofFuel .standard fuel).run program s) := by
  let R := Recast.raising s.calls.limit limit h
  have hrun := R.hooked_run rfl (Library.standard_recasts R) .idle fuel program hs
    fun ho => hover ho.2
  rw [Recast.raising_state rfl, hooked_idle] at hrun
  rw [hrun]
  have hcalls := run_calls program fuel s
  cases hresult : (ofFuel .standard fuel).run program s with
  | ok o t =>
    rw [Run.state_ok hresult] at hcalls
    simp only [Run.resultWithLimit, R, Recast.raising_state (congrArg CallStack.limit hcalls)]
  | error e t =>
    rw [Run.state_error hresult] at hcalls
    simp only [Run.resultWithLimit, R, Recast.raising_state (congrArg CallStack.limit hcalls)]

/-- What is put in the place of overflows makes a difference to overflowing runs alone. -/
theorem run_replacing (hs : s.env.Nested) (value : Report → Run Value) (flow : Report → Run Flow)
    (hdiffers : (hooked .standard (.replacing value flow) fuel).run program s ≠
      (ofFuel .standard fuel).run program s) :
    Run.Overflowed ((ofFuel .standard fuel).run program s) := by
  by_contra hover
  let R := Recast.raising none none (.refl none)
  have hstate : ∀ t : State, R.state t = t := by
    intro t
    have hlimit : R.limit t.calls.limit = t.calls.limit := by
      show (if t.calls.limit = none then none else t.calls.limit) = t.calls.limit
      split
      · next h => exact h.symm
      · rfl
    rw [Recast.state_of_id rfl, hlimit]
  have hhooks : R.Hooks .idle (.replacing value flow) :=
    ⟨.replacing trivial value, .replacing trivial flow⟩
  have hrun := R.hooked_run rfl (Library.standard_recasts R) hhooks fuel program hs
    fun ho => hover ho.2
  rw [hstate] at hrun
  apply hdiffers
  rw [hrun]
  cases (ofFuel .standard fuel).run program s <;> simp only [hstate]

end Evaluator

/-- Whatever state a run starts in, it does not overflow the stack of calls. -/
def Run.NeverOverflows {α : Type} (x : Run α) : Prop := ∀ s, ¬Run.Overflowed (x s)

namespace Run.NeverOverflows

variable {α β : Type} {x : Run α}

theorem pure (a : α) : (Pure.pure a : Run α).NeverOverflows := fun s => not_overflowed_ok a s

theorem exhausted : (Run.exhausted : Run α).NeverOverflows := fun _ h => overflowed_error.mp h

theorem bind {f : α → Run β} (hx : x.NeverOverflows) (hf : ∀ a, (f a).NeverOverflows) :
    (x >>= f).NeverOverflows := by
  intro s hover
  cases h : x s with
  | ok a t =>
    rw [Run.bind_ok h] at hover
    exact hf a t hover
  | error e t =>
    rw [Run.bind_error h, overflowed_error] at hover
    exact hx s (h ▸ overflowed_error.mpr hover)

/-- Out of fuel, where it would have overflowed. -/
theorem replacing (x : Run α) : (Run.replacing (fun _ => Run.exhausted) x).NeverOverflows := by
  intro s hover
  cases h : x s with
  | ok a t =>
    rw [Run.replacing_ok h] at hover
    exact not_overflowed_ok a t hover
  | error e t =>
    by_cases he : e.Overflows
    · cases e with
      | outOfFuel => exact he
      | error e =>
        obtain ⟨n, hn⟩ := he
        simp only [Run.replacing, h, hn] at hover
        exact exhausted t hover
    · rw [Run.replacing_error h he, overflowed_error] at hover
      exact he hover

theorem block {r : Evaluator} (h : ∀ stmt, (r.exec stmt).NeverOverflows) (body : List Stmt) :
    (r.block body).NeverOverflows := by
  induction body with
  | nil => exact pure _
  | cons stmt rest ih =>
    refine (h stmt).bind fun flow => ?_
    cases flow with
    | normal => exact ih
    | signal s => exact pure _

theorem run {r : Evaluator} (h : ∀ stmt, (r.exec stmt).NeverOverflows) (program : List Stmt) :
    (r.run program).NeverOverflows := by
  have hload : r.loadCore.NeverOverflows := by
    intro s
    unfold Evaluator.loadCore
    cases s.core with
    | pending => exact (block h coreDeclarations).bind (fun _ => pure ()) _
    | disabled => exact pure () s
    | loaded => exact pure () s
  refine hload.bind fun _ => (block h program).bind fun flow => ?_
  cases flow with
  | normal => exact pure _
  | signal s =>
    cases s with
    | leave => exact pure _
    | yield v => exact pure _
    | breakTo label => exact fun t hover => nomatch (overflowed_error.mp hover).choose_spec
    | nextTo label => exact fun t hover => nomatch (overflowed_error.mp hover).choose_spec

end Run.NeverOverflows

/-- An overflowing run comes out otherwise where overflows are replaced with want of fuel. -/
theorem Evaluator.run_replaced {library : Library} {program : List Stmt} {fuel : Nat} {s : State}
    (hover : Run.Overflowed ((ofFuel library fuel).run program s)) :
    (hooked library (.replacing (fun _ => Run.exhausted) fun _ => Run.exhausted) fuel).run
      program s ≠ (ofFuel library fuel).run program s := by
  intro heq
  rw [← heq] at hover
  refine Run.NeverOverflows.run (fun stmt => ?_) program s hover
  cases fuel with
  | zero => exact .exhausted
  | succ fuel => exact .replacing _

/-- The limit of calls stays as it was set. -/
theorem Reaches.limit {settings : Settings} {s : State}
    (h : Reaches .standard (.initial settings) s) : s.calls.limit = settings.maxDepth := by
  induction h with
  | refl => rfl
  | @run t program halt fuel _ ih =>
    have hself := Evaluator.interrupted_precedes_self (c := False) Library.standard_framed halt fuel
    rw [((hself.run program).frame t).calls]
    exact ih

/-- For programs that run from the start, or one after another: a run that does not overflow the
stack of calls comes out the same, with all that it prints and leaves behind, under any limit that
is not lower; and something else in the place of overflows makes a difference to a run, wherever in
it they arise, exactly if the run itself ends with one. -/
theorem Reaches.limit_transparent {settings : Settings} {s : State}
    (h : Reaches .standard (.initial settings) s) (program : List Stmt) (fuel : Nat) :
    let outcome := (Evaluator.ofFuel .standard fuel).run program s
    (∀ limit, Raises settings.maxDepth limit → ¬Run.Overflowed outcome →
      (Evaluator.ofFuel .standard fuel).run program (s.withLimit limit) =
        Run.resultWithLimit limit outcome) ∧
    ((∃ value flow, (Evaluator.hooked .standard (.replacing value flow) fuel).run program s ≠
      outcome) ↔ Run.Overflowed outcome) := by
  intro outcome
  have hs : s.env.Nested := h.nested (Library.standard_recasts .same) .fresh
  constructor
  · intro limit hraises hover
    exact Evaluator.run_withLimit program fuel hs (h.limit ▸ hraises) hover
  · constructor
    · rintro ⟨value, flow, hdiffers⟩
      exact Evaluator.run_replacing program fuel hs value flow hdiffers
    · exact fun hover => ⟨_, _, Evaluator.run_replaced hover⟩

/-- Whether a fault is that there were too many calls. -/
def Fault.isOverflow : Fault → Bool
  | .stackOverflow _ => true
  | _ => false

theorem Fault.isOverflow_iff (f : Fault) : f.isOverflow = true ↔ ∃ n, f = .stackOverflow n := by
  cases f <;> simp [isOverflow]

instance {α : Type} (outcome : EStateM.Result Stop State α) :
    Decidable (Run.Overflowed outcome) :=
  match outcome with
  | .ok a t => .isFalse (Run.not_overflowed_ok a t)
  | .error .outOfFuel _ => .isFalse Run.overflowed_error.mp
  | .error (.error e) t =>
    have h : Run.Overflowed (α := α) (.error (.error e) t) ↔ ∃ n, e.fault = .stackOverflow n :=
      Run.overflowed_error
    decidable_of_iff _ (e.fault.isOverflow_iff.trans h.symm)

/-- The program
`sub f() as int { yield 1 }; sub g(n as int = f()) as int { yield n }; yield g()`. -/
def defaultCall : List Stmt :=
  [.generated (.sub (.mk "f" [] (.prim .int)
      [.generated (.yield (.generated (.literal (.int 1))))] false)),
    .generated (.sub (.mk "g" [⟨"n", .prim .int, some (.generated (.invoke "f" []))⟩] (.prim .int)
      [.generated (.yield (.generated (.name "n")))] false)),
    .generated (.yield (.generated (.invoke "g" [])))]

/-- One call at a time is enough, and without a limit the program does the same; where no call is
allowed, the overflow is in the default of a parameter, and the program ends with it. -/
theorem limit_transparent_defaultCall :
    let s := State.initial ⟨false, some 1, true⟩
    let t := State.initial ⟨false, some 0, true⟩
    let r := Evaluator.ofFuel .standard 8
    Raises (some 1) none ∧ ¬Run.Overflowed (r.run defaultCall s) ∧
      r.run defaultCall (.initial ⟨false, none, true⟩) =
        Run.resultWithLimit none (r.run defaultCall s) ∧
      Run.Overflowed (r.run defaultCall t) ∧
      ∃ value flow, (Evaluator.hooked .standard (.replacing value flow) 8).run defaultCall t ≠
        r.run defaultCall t := by
  intro s t r
  have hraises : Raises (some 1) none := nofun
  have hends : ¬Run.Overflowed (r.run defaultCall s) := by decide +kernel
  have hover : Run.Overflowed (r.run defaultCall t) := by decide +kernel
  have hs : Reaches .standard (.initial ⟨false, some 1, true⟩) s := .refl
  have ht : Reaches .standard (.initial ⟨false, some 0, true⟩) t := .refl
  have hsame := (Reaches.limit_transparent hs defaultCall 8).1 none hraises hends
  have hdiffers := (Reaches.limit_transparent ht defaultCall 8).2.mpr hover
  exact ⟨hraises, hends, hsame, hover, hdiffers⟩

end BasicScript
