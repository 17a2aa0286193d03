import BasicScript.Proofs.Frame.Run
import BasicScript.Proofs.Law.Local
import BasicScript.Proofs.Reports.Departure

/-! # Runs that report faithfully

A family of runs, one for each way of noting departures, reports faithfully if
all of them end alike, and an error has noted the executions that it left on
its way out: each inside the next, and the calls among them as the backtrace
has them. Faithful runs are closed under all that the rules are made of.
-/

namespace BasicScript

/-- The departures of an error, the innermost first, out of an execution that began with the given
active calls and may execute the given statements itself. An error leaves a statement after all
that it leaves inside it, which is parts of the statement and calls; and it leaves a call after
statements of the body of the sub, and calls. -/
inductive Unwinding : List Stmt → List CallFrame → List Departure → Prop
  | raised {parts : List Stmt} {frames : List CallFrame} : Unwinding parts frames []
  | statement {parts : List Stmt} {frames : List CallFrame} {stmt : Stmt} {start : State}
    {path : List Departure} (member : stmt ∈ parts) (active : start.calls.frames = frames)
    (inner : Unwinding stmt.kind.parts frames path) :
    Unwinding parts frames (path ++ [.statement stmt start])
  | call {parts : List Stmt} {frames : List CallFrame} {sub : Sub} {span : Span} {start : State}
    {path : List Departure} (active : start.calls.frames = ⟨sub.signature, span⟩ :: frames)
    (inner : Unwinding sub.body (⟨sub.signature, span⟩ :: frames) path) :
    Unwinding parts frames (path ++ [.call sub span start])

/-- The backtrace of an error that has left calls: those, and the ones around them. -/
def Departure.backtrace? (around : List CallFrame) (path : List Departure) :
    Option (List CallFrame) :=
  if (frames path).isEmpty then none else some (frames path ++ around)

theorem Departure.backtrace?_eq_none {around : List CallFrame} {path : List Departure} :
    backtrace? around path = none ↔ frames path = [] := by
  unfold backtrace?
  cases frames path <;> simp

theorem Departure.backtrace?_eq_some {around calls : List CallFrame} {path : List Departure} :
    backtrace? around path = some calls ↔ frames path ≠ [] ∧ calls = frames path ++ around := by
  unfold backtrace?
  cases frames path <;> simp [eq_comm]

theorem Departure.frames_append_statement (path : List Departure) (stmt : Stmt) (start : State) :
    frames (path ++ [.statement stmt start]) = frames path := by
  simp [frames, frame?]

theorem Departure.frames_append_call (path : List Departure) (sub : Sub) (span : Span)
    (start : State) :
    frames (path ++ [.call sub span start]) = frames path ++ [⟨sub.signature, span⟩] := by
  simp [frames, frame?]

/-- An error leaves a call with the backtrace of all calls that were active inside. -/
theorem Report.withBacktrace_call (fault : Fault) (where? : Option Span) (trace : List TraceEntry)
    (path : List Departure) (sub : Sub) (span : Span) (start : State)
    (around : List CallFrame) :
    (Report.mk fault where? trace
        (Departure.backtrace? (⟨sub.signature, span⟩ :: around) path)).withBacktrace
          (⟨sub.signature, span⟩ :: around) =
      ⟨fault, where?, trace,
        Departure.backtrace? around (path ++ [.call sub span start])⟩ := by
  unfold withBacktrace Departure.backtrace?
  rw [Departure.frames_append_call]
  cases Departure.frames path <;> simp

namespace Run

/-- The runs end alike, with the calls that were active before: in a result, or in an error that
has noted its departures. Where fuel is wanting nothing is claimed but that it is. -/
def Reports {α : Type} (parts : List Stmt) (x : Notes → Run α) : Prop :=
  ∀ s, (∃ a t, t.calls = s.calls ∧ ∀ ν, x ν s = .ok a t) ∨
    (∃ t, ∀ ν, x ν s = .error .outOfFuel t) ∨
    ∃ fault span path t, Unwinding parts s.calls.frames path ∧ t.calls = s.calls ∧ ∀ ν, x ν s =
      .error (.error ⟨fault, span, path.flatMap ν,
        Departure.backtrace? s.calls.frames path⟩) t

namespace Reports

variable {α β γ : Type} {parts : List Stmt} {x y : Notes → Run α} {f : Notes → α → Run β}

/-- A run that does not note anything, and fails with a bare fault if it does. -/
theorem bare {x : Run α} (h : ∀ s, (∃ a t, t.calls = s.calls ∧ x s = .ok a t) ∨
    ∃ f t, t.calls = s.calls ∧ x s = .error (.error (.ofFault f)) t) :
    Reports parts fun _ => x := by
  intro s
  rcases h s with ⟨a, t, ht, hrun⟩ | ⟨fault, t, ht, hrun⟩
  · exact .inl ⟨a, t, ht, fun _ => hrun⟩
  · exact .inr (.inr ⟨fault, none, [], t, .raised, ht, fun _ => hrun⟩)

theorem of_local {x : Run α} (h : x.Local True) : Reports parts fun _ => x := by
  intro s
  obtain ⟨σ, κ, ⟨a, ha⟩ | ⟨g, -, hg⟩ | ⟨-, hg⟩⟩ := h s.store s.console
  · exact .inl ⟨a, s.showing σ κ, rfl, fun _ => ha s⟩
  · exact .inr (.inr ⟨g, none, [], s.showing σ κ, .raised, rfl, fun _ => hg s⟩)
  · exact .inr (.inl ⟨s.showing σ κ, fun _ => hg s⟩)

theorem pure (a : α) : Reports parts fun _ => (Pure.pure a : Run α) :=
  bare fun s => .inl ⟨a, s, rfl, rfl⟩

theorem fail (f : Fault) : Reports parts fun _ => (Run.fail f : Run α) :=
  bare fun s => .inr ⟨f, s, rfl, rfl⟩

theorem read (g : State → α) : Reports parts fun _ => Run.read g :=
  bare fun s => .inl ⟨g s, s, rfl, rfl⟩

theorem exhausted : Reports parts fun _ => (Run.exhausted : Run α) :=
  fun s => .inr (.inl ⟨s, fun _ => rfl⟩)

theorem require (f : Fault) (found : Option α) : Reports parts fun _ => Run.require f found := by
  cases found
  · exact fail f
  · exact pure _

theorem bind (hx : Reports parts x) (hf : ∀ a, Reports parts fun ν => f ν a) :
    Reports parts fun ν => x ν >>= f ν := by
  intro s
  rcases hx s with ⟨a, t, ht, hrun⟩ | ⟨t, hrun⟩ | ⟨fault, span, path, t, hpath, ht, hrun⟩
  · have hnext : ∀ ν, (x ν >>= f ν) s = f ν a t := fun ν => bind_ok (hrun ν) (f ν)
    simp only [hnext, ← ht]
    exact hf a t
  · exact .inr (.inl ⟨t, fun ν => bind_error (hrun ν) (f ν)⟩)
  · exact .inr (.inr ⟨fault, span, path, t, hpath, ht, fun ν => bind_error (hrun ν) (f ν)⟩)

theorem ite {c : Prop} [Decidable c] (hx : Reports parts x) (hy : Reports parts y) :
    Reports parts fun ν => if c then x ν else y ν := by
  by_cases h : c
  · simp only [h, if_true]
    exact hx
  · simp only [h, if_false]
    exact hy

/-- A test that has to fail for the run to go on. -/
theorem guarded {c : Prop} [Decidable c] (g : Fault) {z : Notes → Unit → Run α}
    (hx : Reports parts x) :
    Reports parts fun ν => if c then Run.fail g >>= z ν else x ν :=
  ite (fun s => .inr (.inr ⟨g, none, [], s, .raised, rfl, fun _ => rfl⟩)) hx

theorem mapM {g : Notes → γ → Run β} (h : ∀ a, Reports parts fun ν => g ν a) (as : List γ) :
    Reports parts fun ν => as.mapM (g ν) := by
  induction as with
  | nil => exact pure _
  | cons a as ih =>
    simp only [List.mapM_cons]
    exact (h a).bind fun _ => ih.bind fun _ => pure _

theorem atSpan (here : Span) (hx : Reports parts x) :
    Reports parts fun ν => Run.atSpan here (x ν) := by
  intro s
  rcases hx s with ⟨a, t, ht, hrun⟩ | ⟨t, hrun⟩ | ⟨fault, span, path, t, hpath, ht, hrun⟩
  · exact .inl ⟨a, t, ht, fun ν => by simp only [Run.atSpan, mapReport, hrun]⟩
  · exact .inr (.inl ⟨t, fun ν => by simp only [Run.atSpan, mapReport, hrun, Stop.mapReport]⟩)
  · refine .inr (.inr ⟨fault, some (span.getD here), path, t, hpath, ht, fun ν => ?_⟩)
    simp only [Run.atSpan, mapReport, hrun, Stop.mapReport, Report.orSpan]

/-- The statement is the last departure of an error that leaves it. -/
theorem noting (stmt : Stmt) (hx : Reports stmt.kind.parts x) (s : State) :
    (∃ a t, t.calls = s.calls ∧ ∀ ν, Run.noting ν (.statement stmt) (x ν) s = .ok a t) ∨
    (∃ t, ∀ ν, Run.noting ν (.statement stmt) (x ν) s = .error .outOfFuel t) ∨
    ∃ fault span path t, Unwinding stmt.kind.parts s.calls.frames path ∧ t.calls = s.calls ∧
      ∀ ν, Run.noting ν (.statement stmt) (x ν) s =
        .error (.error ⟨fault, span, (path ++ [Departure.statement stmt s]).flatMap ν,
          Departure.backtrace? s.calls.frames (path ++ [.statement stmt s])⟩) t := by
  rcases hx s with ⟨a, t, ht, hrun⟩ | ⟨t, hrun⟩ | ⟨fault, span, path, t, hpath, ht, hrun⟩
  · exact .inl ⟨a, t, ht, fun ν => by simp only [Run.noting, mapReport, hrun]⟩
  · exact .inr (.inl ⟨t, fun ν => by simp only [Run.noting, mapReport, hrun, Stop.mapReport]⟩)
  · refine .inr (.inr ⟨fault, span, path, t, hpath, ht, fun ν => ?_⟩)
    simp only [Run.noting, mapReport, hrun, Stop.mapReport, List.flatMap_append,
      List.flatMap_singleton, Departure.backtrace?, Departure.frames_append_statement]

theorem statement {stmt : Stmt} (hmem : stmt ∈ parts) (hx : Reports stmt.kind.parts x) :
    Reports parts fun ν => Run.noting ν (.statement stmt) (x ν) := by
  intro s
  rcases hx.noting stmt s with hok | hfuel | ⟨fault, span, path, t, hpath, ht, hrun⟩
  · exact .inl hok
  · exact .inr (.inl hfuel)
  · exact .inr (.inr ⟨fault, span, _, t, .statement hmem rfl hpath, ht, hrun⟩)

/-- An error that leaves a call departs from it, and has a backtrace from then on; a call that is
refused is not entered, and so not left. -/
theorem asCall {sub : Sub} (here : Span) (hx : Reports sub.body x) :
    Reports parts fun ν =>
      Run.asCall ⟨sub.signature, here⟩ (Run.noting ν (.call sub here) (x ν)) := by
  intro s
  cases hpush : s.calls.push ⟨sub.signature, here⟩ with
  | error fault =>
    refine .inr (.inr ⟨fault, some here, [], s, .raised, rfl, fun ν => ?_⟩)
    simp only [Run.asCall, hpush]
    rfl
  | ok calls =>
    -- the call is the innermost one inside, and leaving it gives back the calls from before
    obtain ⟨inside, hinside⟩ : ∃ inside : State, inside = { s with calls := calls } := ⟨_, rfl⟩
    have hcalls : inside.calls = ⟨⟨sub.signature, here⟩ :: s.calls.frames, s.calls.limit⟩ := by
      rw [hinside, CallStack.push_ok hpush]
    have hpop : ∀ t : State, t.calls = inside.calls → (popCall t).calls = s.calls := by
      intro t ht
      rw [popCall, ht, hcalls]
      rfl
    rcases hx inside with
      ⟨a, t, ht, hrun⟩ | ⟨t, hrun⟩ | ⟨fault, span, path, t, hpath, ht, hrun⟩
    · refine .inl ⟨a, popCall t, hpop t ht, fun ν => ?_⟩
      simp only [Run.asCall, hpush, ← hinside, Run.noting, mapReport, hrun]
    · refine .inr (.inl ⟨popCall t, fun ν => ?_⟩)
      simp only [Run.asCall, hpush, ← hinside, Run.noting, mapReport, hrun, Stop.mapReport]
    · rw [hcalls] at hpath ht
      refine .inr (.inr ⟨fault, span, path ++ [.call sub here inside], popCall t,
        .call (by rw [hcalls]) hpath, hpop t (ht.trans hcalls.symm), fun ν => ?_⟩)
      simp only [Run.asCall, hpush, ← hinside, Run.noting, mapReport, hrun, Stop.mapReport, ht,
        hcalls, List.flatMap_append, List.flatMap_singleton,
        Report.withBacktrace_call fault span _ path sub here inside]

/-- What goes on after an error either ignores what the error has noted, or is the error again. -/
theorem either {z : Notes → Report → Run β} (hx : Reports parts x)
    (hf : ∀ a, Reports parts fun ν => f ν a)
    (hz : ∀ g : Fault, (∀ ν e, e.fault = g → z ν e = Run.stop e) ∨
      ∃ y, Reports parts y ∧ ∀ ν e, e.fault = g → z ν e = y ν) :
    Reports parts fun ν => Run.either (x ν) (f ν) (z ν) := by
  intro s
  rcases hx s with ⟨a, t, ht, hrun⟩ | ⟨t, hrun⟩ | ⟨fault, span, path, t, hpath, ht, hrun⟩
  · simp only [Run.either, hrun, ← ht]
    exact hf a t
  · exact .inr (.inl ⟨t, fun ν => by simp only [Run.either, hrun]⟩)
  · rcases hz fault with hstop | ⟨y, hy, hdrop⟩
    · -- the same error goes on, with all that it has noted
      refine .inr (.inr ⟨fault, span, path, t, hpath, ht, fun ν => ?_⟩)
      simp only [Run.either, hrun]
      rw [hstop ν ⟨fault, _, _, _⟩ rfl, Run.stop]
    · have hnext : ∀ ν, Run.either (x ν) (f ν) (z ν) s = y ν t := fun ν => by
        simp only [Run.either, hrun]
        rw [hdrop ν ⟨fault, _, _, _⟩ rfl]
      simp only [hnext, ← ht]
      exact hy t

/-! ## Scopes and calls -/

/-- A run between two changes of the state that leave the calls alone. -/
theorem between (enter leave : State → State) (henter : ∀ s, (enter s).calls = s.calls)
    (hleave : ∀ s, (leave s).calls = s.calls) (hx : Reports parts x) :
    Reports parts fun ν s => Run.leaving leave (x ν) (enter s) := by
  intro s
  have hcalls := hx (enter s)
  rw [henter] at hcalls
  rcases hcalls with ⟨a, t, ht, hrun⟩ | ⟨t, hrun⟩ | ⟨fault, span, path, t, hpath, ht, hrun⟩
  · exact .inl ⟨a, leave t, (hleave t).trans ht, fun ν => by simp only [Run.leaving, hrun]⟩
  · exact .inr (.inl ⟨leave t, fun ν => by simp only [Run.leaving, hrun]⟩)
  · exact .inr (.inr ⟨fault, span, path, leave t, hpath, (hleave t).trans ht,
      fun ν => by simp only [Run.leaving, hrun]⟩)

theorem inScope (hx : Reports parts x) : Reports parts fun ν => Run.inScope (x ν) :=
  hx.between (fun s => { s with env := s.env.push }) popScope (fun _ => rfl) fun _ => rfl

theorem inLiveScope (path : ScopePath) (hx : Reports parts x) :
    Reports parts fun ν => Run.inLiveScope path (x ν) := by
  intro s
  by_cases hlive : s.env.isLive path = true
  · simp only [Run.inLiveScope, hlive, if_true]
    exact hx.between (fun s => { s with env := s.env.pushBelow path }) popScope (fun _ => rfl)
      (fun _ => rfl) s
  · simp only [Run.inLiveScope, hlive]
    exact fail _ s

theorem returning (t : Ty) (hx : Reports parts x) :
    Reports parts fun ν => Run.returning t (x ν) :=
  hx.between (fun s => { s with returns := t :: s.returns }) popReturns (fun _ => rfl)
    fun _ => rfl

/-! ## Primitive runs -/

theorem typeOf (v : Value) : Reports parts fun _ => Run.typeOf v := read _

theorem failOn (f : Option Ty → Fault) (v : Value) :
    Reports parts fun _ => (Run.failOn f v : Run α) := (typeOf v).bind fun _ => fail _

theorem cellOf (name : String) : Reports parts fun _ => Run.cellOf name :=
  (read _).bind fun _ => require _ _

theorem conform (t : Ty) (v : Value) : Reports parts fun _ => Run.conform t v :=
  of_local (.conform t v)

theorem declare (entity : Entity) (name : String) (takes : Environment → Bool)
    (add : Environment → Environment) :
    Reports parts fun _ => Run.declare entity name takes add := by
  refine bare fun s => ?_
  rcases declare_cases entity name takes add s with ⟨-, hrun⟩ | ⟨f, hrun⟩
  · exact .inl ⟨(), { s with env := add s.env }, rfl, hrun⟩
  · exact .inr ⟨f, s, rfl, hrun⟩

theorem declareVariable (name : String) (c : Cell) :
    Reports parts fun _ => Run.declareVariable name c := by
  refine bare fun s => ?_
  rcases declareVariable_cases name c s with ⟨-, hrun⟩ | ⟨f, hrun⟩
  · exact .inl ⟨_, { s with
      store := (s.store.newCell c).2
      env := s.env.addVariable name (s.store.newCell c).1 }, rfl, hrun⟩
  · exact .inr ⟨f, s, rfl, hrun⟩

/-! ## Loops -/

/-- What a loop makes of one round. -/
theorem ofStep (step : LoopStep) {x : Notes → Run Flow} (hx : Reports parts x) :
    Reports parts fun ν =>
      match step with
      | .again => x ν
      | .stop => Pure.pure .normal
      | .pass s => Pure.pure (.signal s) := by
  cases step
  · exact hx
  · exact pure _
  · exact pure _

theorem loop {step : Notes → Run LoopStep} (hstep : Reports parts step) (rounds : Nat) :
    Reports parts fun ν => Run.loop (step ν) rounds := by
  induction rounds with
  | zero => exact exhausted
  | succ rounds ih => exact hstep.bind fun result => ofStep result ih

theorem forValues {step : Notes → Value → Run LoopStep}
    (hstep : ∀ v, Reports parts fun ν => step ν v) (vs : List Value) :
    Reports parts fun ν => Run.forValues (step ν) vs := by
  induction vs with
  | nil => exact pure _
  | cons v vs ih => exact (hstep v).bind fun result => ofStep result ih

end Reports

end Run

end BasicScript
