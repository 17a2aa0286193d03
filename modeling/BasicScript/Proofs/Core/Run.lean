import BasicScript.Proofs.Frame.Run
import BasicScript.Proofs.Law.Local

/-! # Runs that do not touch the status of the core declarations

Only the requests of a host look at the status of the core declarations. Runs
that leave it as it is are closed under composition, so none of the rules that
requests are served by can change it.
-/

namespace BasicScript

namespace Run

variable {α β : Type}

/-- However the run ends, the status of the core declarations is what it was. -/
def KeepsCore (x : Run α) : Prop := ∀ s : State, (x.state s).core = s.core

namespace KeepsCore

variable {x y : Run α} {f : α → Run β}

theorem of_local (h : x.Local True) : x.KeepsCore := by
  intro s
  obtain ⟨σ, κ, ⟨a, hresult⟩ | ⟨g, -, hstop⟩ | ⟨-, hstop⟩⟩ := h s.store s.console
  · rw [show x.state s = s.showing σ κ from state_ok (hresult s)]
    rfl
  · rw [show x.state s = s.showing σ κ from state_error (hstop s)]
    rfl
  · rw [show x.state s = s.showing σ κ from state_error (hstop s)]
    rfl

theorem still (h : ∀ s, x.state s = s) : x.KeepsCore := fun s => congrArg State.core (h s)

theorem pure (a : α) : (Pure.pure a : Run α).KeepsCore := still fun _ => rfl

theorem fail (g : Fault) : (Run.fail g : Run α).KeepsCore := still fun _ => rfl

theorem stop (e : Report) : (Run.stop e : Run α).KeepsCore := still fun _ => rfl

theorem exhausted : (Run.exhausted : Run α).KeepsCore := still fun _ => rfl

theorem read (g : State → α) : (Run.read g).KeepsCore := still fun _ => rfl

theorem bind (hx : x.KeepsCore) (hf : ∀ a, (f a).KeepsCore) : (x >>= f).KeepsCore := by
  intro s
  have hfirst := hx s
  cases h : x s with
  | ok a t =>
    rw [state_ok h] at hfirst
    rw [state_bind_ok h]
    exact (hf a t).trans hfirst
  | error e t =>
    rw [state_error h] at hfirst
    rwa [state_error (bind_error h f)]

theorem ite {p : Prop} [Decidable p] (hx : x.KeepsCore) (hy : y.KeepsCore) :
    (if p then x else y : Run α).KeepsCore := by
  split
  · exact hx
  · exact hy

theorem require (g : Fault) (found : Option α) : (Run.require g found).KeepsCore := by
  cases found
  · exact fail g
  · exact pure _

theorem failOn (g : Option Ty → Fault) (v : Value) : (Run.failOn g v : Run α).KeepsCore :=
  (read _).bind fun _ => fail _

theorem mapReport (g : Report → Report) (h : x.KeepsCore) : (Run.mapReport g x).KeepsCore := by
  intro s
  rw [← h s]
  simp only [Run.mapReport, state]
  cases x s <;> rfl

theorem atSpan (span : Span) (h : x.KeepsCore) : (Run.atSpan span x).KeepsCore := h.mapReport _

theorem traced (what : String) (span : Span) (h : x.KeepsCore) :
    (Run.traced what span x).KeepsCore := h.mapReport _

theorem either {z : Report → Run β} (hx : x.KeepsCore) (hf : ∀ a, (f a).KeepsCore)
    (hz : ∀ e, (z e).KeepsCore) : (Run.either x f z).KeepsCore := by
  intro s
  have hfirst := hx s
  cases h : x s with
  | ok a t =>
    rw [state_ok h] at hfirst
    rw [show (Run.either x f z).state s = (f a).state t by simp only [state, Run.either, h]]
    exact (hf a t).trans hfirst
  | error e t =>
    rw [state_error h] at hfirst
    cases e with
    | error e =>
      rw [show (Run.either x f z).state s = (z e).state t by simp only [state, Run.either, h]]
      exact (hz e t).trans hfirst
    | outOfFuel => simpa only [state, Run.either, h] using hfirst

theorem mapM {γ : Type} {g : γ → Run β} (h : ∀ a, (g a).KeepsCore) (as : List γ) :
    (as.mapM g).KeepsCore := by
  induction as with
  | nil => exact pure []
  | cons a as ih =>
    rw [List.mapM_cons]
    exact (h a).bind fun _ => ih.bind fun _ => pure _

theorem loop {step : Run LoopStep} (h : step.KeepsCore) (rounds : Nat) :
    (Run.loop step rounds).KeepsCore := by
  induction rounds with
  | zero => exact exhausted
  | succ rounds ih =>
    refine h.bind fun next => ?_
    cases next
    · exact ih
    · exact pure _
    · exact pure _

theorem forValues {step : Value → Run LoopStep} (h : ∀ v, (step v).KeepsCore)
    (vs : List Value) : (Run.forValues step vs).KeepsCore := by
  induction vs with
  | nil => exact pure _
  | cons v vs ih =>
    refine (h v).bind fun next => ?_
    cases next
    · exact ih
    · exact pure _
    · exact pure _

/-- A run between two changes of other parts of the state. -/
theorem between {enter leave : State → State} (h : x.KeepsCore)
    (henter : ∀ s, (enter s).core = s.core) (hleave : ∀ s, (leave s).core = s.core) :
    KeepsCore fun s => leaving leave x (enter s) := by
  intro s
  have hstate : state (fun s => leaving leave x (enter s)) s = leave (x.state (enter s)) := by
    simp only [state, leaving]
    cases x (enter s) <;> rfl
  rw [hstate, hleave, h, henter]

theorem inScopeBelow (path : ScopePath) (h : x.KeepsCore) :
    (Run.inScopeBelow path x).KeepsCore := h.between (fun _ => rfl) fun _ => rfl

theorem inScope (h : x.KeepsCore) : (Run.inScope x).KeepsCore :=
  h.between (fun _ => rfl) fun _ => rfl

theorem inLiveScope (path : ScopePath) (h : x.KeepsCore) :
    (Run.inLiveScope path x).KeepsCore := by
  intro s
  by_cases hlive : s.env.isLive path
  · rw [show (Run.inLiveScope path x).state s = (Run.inScopeBelow path x).state s by
      simp only [state, show Run.inLiveScope path x s = _ from if_pos hlive]]
    exact h.inScopeBelow path s
  · exact congrArg State.core (state_error (if_neg hlive))

theorem returning (t : Ty) (h : x.KeepsCore) : (Run.returning t x).KeepsCore :=
  h.between (fun _ => rfl) fun _ => rfl

theorem asCall (frame : CallFrame) (h : x.KeepsCore) : (Run.asCall frame x).KeepsCore := by
  intro s
  cases hpush : s.calls.push frame with
  | error g => simp only [state, Run.asCall, hpush]
  | ok calls =>
    have hstate : (Run.asCall frame x).state s = popCall (x.state { s with calls := calls }) := by
      simp only [state, Run.asCall, hpush]
      cases x { s with calls := calls } <;> rfl
    rw [hstate]
    exact h { s with calls := calls }

theorem cellOf (name : String) : (Run.cellOf name).KeepsCore :=
  (read _).bind fun _ => require _ _

theorem declare (entity : Entity) (name : String) (takes : Environment → Bool)
    (add : Environment → Environment) : (Run.declare entity name takes add).KeepsCore := by
  intro s
  rcases declare_cases entity name takes add s with ⟨-, hrun⟩ | ⟨g, hrun⟩
  · rw [state_ok hrun]
  · rw [state_error hrun]

theorem declareVariable (name : String) (cell : Cell) :
    (Run.declareVariable name cell).KeepsCore := by
  intro s
  rcases declareVariable_cases name cell s with ⟨-, hrun⟩ | ⟨g, hrun⟩
  · rw [state_ok hrun]
  · rw [state_error hrun]

end KeepsCore

end Run

/-- The functions of a library leave the status of the core declarations as it is, over callers
that do. -/
def Library.KeepsCore (l : Library) : Prop :=
  ∀ signature native, l.lookup signature = some native → ∀ call : Caller,
    (∀ name args, (call name args).KeepsCore) → ∀ args, (native.function call args).KeepsCore

theorem Library.standard_keepsCore : standard.KeepsCore := by
  intro signature native hlookup call _ args
  obtain ⟨f, hf, hlocal⟩ := standard_local hlookup
  rw [hf]
  exact .of_local (hlocal args)

/-- What rules start from leaves the status of the core declarations as it is. -/
structure Evaluator.KeepsCore (r : Evaluator) : Prop where
  library : r.library.KeepsCore
  eval : ∀ hint e, (r.eval hint e).KeepsCore
  exec : ∀ s, (r.exec s).KeepsCore
  default : ∀ t, (r.default t).KeepsCore
  invoke : ∀ name args, (r.invoke name args).KeepsCore

end BasicScript
