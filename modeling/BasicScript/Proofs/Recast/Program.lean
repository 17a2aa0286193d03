import BasicScript.Proofs.Law.Program
import BasicScript.Proofs.Recast.Expression

/-! # Recast programs

The relation of evaluators closes over the fuel, also where the rules run
through hooks. The core declarations have no places, and are the same in every
recasting.
-/

namespace BasicScript

namespace Library

open Recast.Carries (fail pure reads failOn)

variable {R : Recast}

theorem unexpected_recasts (name : String) (v : Value) :
    R.Maps (Value.mapSpans R.span) (unexpected name v) (unexpected name (v.mapSpans R.span)) :=
  failOn _ v

theorem printing_recasts (print : Console → String → Console) (v : Value) :
    R.Maps (Value.mapSpans R.span) (printing print v) (printing print (v.mapSpans R.span)) := by
  refine (Recast.Carries.text v).bind fun text _ => ?_
  exact Recast.Carries.of_cases fun s hs => .inl ⟨_, _, rfl, rfl, hs, trivial⟩

theorem absInt_recasts (v : Value) :
    R.Maps (Value.mapSpans R.span) (absInt v) (absInt (v.mapSpans R.span)) := by
  cases v with
  | number n =>
    cases n with
    | int n => exact pure rfl trivial
    | _ => exact unexpected_recasts _ _
  | _ => exact unexpected_recasts _ _

theorem onDouble_recasts (name : String) (f : Float → Float) (v : Value) :
    R.Maps (Value.mapSpans R.span) (onDouble name f v)
      (onDouble name f (v.mapSpans R.span)) := by
  cases v with
  | number n =>
    cases n with
    | double x => exact pure rfl trivial
    | _ => exact unexpected_recasts _ _
  | _ => exact unexpected_recasts _ _

theorem onString_recasts (name : String) (f : String → String) (v : Value) :
    R.Maps (Value.mapSpans R.span) (onString name f v)
      (onString name f (v.mapSpans R.span)) := by
  cases v with
  | string s => exact pure rfl trivial
  | _ => exact unexpected_recasts _ _

theorem ord_recasts (v : Value) :
    R.Maps (Value.mapSpans R.span) (ord v) (ord (v.mapSpans R.span)) := by
  cases v with
  | char c => exact pure rfl trivial
  | _ => exact unexpected_recasts _ _

theorem chr_recasts (v : Value) :
    R.Maps (Value.mapSpans R.span) (chr v) (chr (v.mapSpans R.span)) := by
  cases v with
  | number n =>
    cases n with
    | int n =>
      simp only [chr, Value.mapSpans]
      cases charOfCode? n.toInt with
      | none => exact fail _
      | some c => exact pure rfl trivial
    | _ => exact unexpected_recasts _ _
  | _ => exact unexpected_recasts _ _

theorem size_recasts (v : Value) :
    R.Maps (Value.mapSpans R.span) (size v) (size (v.mapSpans R.span)) := by
  cases v with
  | array id =>
    exact (Recast.Carries.arraySize id).bind fun n _ =>
      .ite Iff.rfl (fun _ => pure rfl trivial) fun _ => fail _
  | _ => exact unexpected_recasts _ _

/-- The natives of the standard library look at texts, types and lengths alone. -/
theorem standard_recasts (R : Recast) : standard.Recasts R := by
  intro signature native hlookup call call' _ args
  obtain ⟨f, hf, hmaps⟩ := standard_unary hlookup
    (P := fun f => ∀ v, R.Maps (Value.mapSpans R.span) (f v) (f (v.mapSpans R.span)))
    printing_recasts absInt_recasts onDouble_recasts onString_recasts ord_recasts chr_recasts
    size_recasts
  rw [hf]
  match args with
  | [v] => exact hmaps v
  | [] => exact fail _
  | _ :: _ :: _ => exact fail _

end Library

/-- What is done with the rules of an evaluator: in place of a rule runs what the hook makes of
it. -/
structure Hook where
  value : Run Value → Run Value
  flow : Run Flow → Run Flow

namespace Hook

/-- The hook that leaves all rules alone. -/
def idle : Hook := ⟨id, id⟩

/-- The hook that halts a run in some states. -/
def halting (halt : State → Bool) : Hook := ⟨Run.unlessHalted halt, Run.unlessHalted halt⟩

end Hook

namespace Evaluator

/-- The evaluator with fuel whose rules run through a hook. -/
def hooked (library : Library) (hook : Hook) : Nat → Evaluator
  | 0 => exhausted library
  | fuel + 1 =>
    { library := library
      rounds := fuel
      eval := fun hint e => hook.value ((hooked library hook fuel).expr hint e)
      exec := fun s => hook.flow ((hooked library hook fuel).stmt s)
      default := fun t => hook.value ((hooked library hook fuel).defaultValue t)
      invoke := fun name args => hook.value ((hooked library hook fuel).callValues name args) }

theorem hooked_idle (library : Library) (fuel : Nat) :
    hooked library .idle fuel = ofFuel library fuel := by
  induction fuel with
  | zero => rfl
  | succ fuel ih =>
    rw [hooked, ofFuel, ih]
    rfl

theorem hooked_halting (library : Library) (halt : State → Bool) (fuel : Nat) :
    hooked library (.halting halt) fuel = interrupted library halt fuel := by
  induction fuel with
  | zero => rfl
  | succ fuel ih =>
    rw [hooked, interrupted, ih]
    rfl

theorem hooked_library (library : Library) (hook : Hook) (fuel : Nat) :
    (hooked library hook fuel).library = library := by
  cases fuel <;> rfl

end Evaluator

namespace Recast

variable {R : Recast}

/-- Hooks of which the second does, from recast states, what the first one does. -/
structure Hooks (R : Recast) (hook hook' : Hook) : Prop where
  value : ∀ {x y}, R.Maps (Value.mapSpans R.span) x y →
    R.Maps (Value.mapSpans R.span) (hook.value x) (hook'.value y)
  flow : ∀ {x y}, R.Maps (Flow.mapSpans R.span) x y →
    R.Maps (Flow.mapSpans R.span) (hook.flow x) (hook'.flow y)

theorem Hooks.idle : R.Hooks .idle .idle := ⟨id, id⟩

theorem hooked_follows {library : Library} (hl : library.Recasts R) {hook hook' : Hook}
    (h : R.Hooks hook hook') (fuel : Nat) :
    R.Follows (.hooked library hook fuel) (.hooked library hook' fuel) := by
  induction fuel with
  | zero =>
    exact ⟨rfl, rfl, fun _ _ => .exhausted, fun _ => .exhausted, fun _ => .exhausted,
      fun _ _ => .exhausted⟩
  | succ fuel ih =>
    have hrules : (Evaluator.hooked library hook fuel).library.Recasts R := by
      rwa [Evaluator.hooked_library]
    exact
      { library := rfl
        rounds := rfl
        eval := fun hint e => h.value (ih.expr hrules hint e)
        exec := fun s => h.flow (ih.stmt s)
        default := fun t => h.value (ih.defaultValue t)
        invoke := fun name vs => h.value (ih.callValues hrules name vs) }

namespace Follows

variable {r r' : Evaluator}

/-- The core declarations are nowhere, and stay there. -/
theorem coreDeclarations_mapSpans (R : Recast) :
    coreDeclarations.map (Stmt.mapSpans R.span) = coreDeclarations := by
  have hall : ∀ s ∈ coreDeclarations, s.mapSpans R.span = s := by
    refine coreDeclarations_cases (fun name param q returns => ?_) fun name param q returns => ?_
    · exact congrArg (Stmt.mk _) R.nowhere
    · exact congrArg (Stmt.mk _) R.nowhere
  exact (List.map_congr_left hall).trans (List.map_id _)

theorem loadCore (h : R.Follows r r') : R.Maps id r.loadCore r'.loadCore := by
  intro s hs
  have hcore : (R.state s).core = s.core := rfl
  unfold Evaluator.loadCore
  rw [hcore]
  cases s.core with
  | pending =>
    have hblock : R.Maps id (do let _ ← r.block coreDeclarations : Run Unit)
        (do let _ ← r'.block coreDeclarations : Run Unit) := by
      have hcore := h.block coreDeclarations
      rw [coreDeclarations_mapSpans] at hcore
      exact hcore.bind fun _ _ => .pure rfl trivial
    exact hblock { s with core := .loaded } hs
  | disabled => exact ⟨⟨hs, trivial⟩, .inl rfl⟩
  | loaded => exact ⟨⟨hs, trivial⟩, .inl rfl⟩

/-- A recast program does in a recast state what the program does in the state. -/
theorem run (h : R.Follows r r') (program : List Stmt) :
    R.Maps (Outcome.mapSpans R.span) (r.run program)
      (r'.run (program.map (Stmt.mapSpans R.span))) := by
  refine h.loadCore.bind fun _ _ => (h.block program).bind fun flow _ => ?_
  cases flow with
  | normal => exact .pure rfl trivial
  | signal s =>
    cases s with
    | leave => exact .pure rfl trivial
    | yield v => exact .pure rfl trivial
    | breakTo label => exact .fail _
    | nextTo label => exact .fail _

end Follows

/-- With the same spans a recast state has another limit at most. -/
theorem state_of_id (h : R.span = id) (s : State) :
    R.state s = { s with calls := ⟨s.calls.frames, R.limit s.calls.limit⟩ } := by
  have hframes : s.calls.frames.map (CallFrame.mapSpans id) = s.calls.frames :=
    List.map_id'' CallFrame.mapSpans_id _
  simp only [state, h, Store.mapSpans_id, Environment.mapSpans_id, hframes]

theorem stop_of_id (h : R.span = id) (e : Stop) : R.stop e = e := by
  cases e with
  | outOfFuel => rfl
  | error e => exact congrArg Stop.error (h ▸ e.mapSpans_id)

/-- With the same spans a recast outcome is the same, in a recast state. -/
theorem result_of_id (h : R.span = id) (a : EStateM.Result Stop State Outcome) :
    R.result (Outcome.mapSpans R.span) a =
      match a with
      | .ok o t => .ok o (R.state t)
      | .error e t => .error e (R.state t) := by
  cases a with
  | ok o t => simp only [result, h, Outcome.mapSpans_id]
  | error e t => simp only [result, stop_of_id h]

/-- The recasting that changes nothing. -/
def same : Recast where
  span := id
  nowhere := rfl
  limit := id
  raises _ m hm := ⟨m, hm, Nat.le_refl m⟩
  lossy := False
  exact _ _ := rfl

theorem same_state (s : State) : same.state s = s := state_of_id rfl s

/-- With the same spans, and in nested states, a program does what it does without the hook, unless
that overflows the stack of calls and no account is taken of it. -/
theorem hooked_run (hspan : R.span = id) {library : Library} (hl : library.Recasts R) {hook : Hook}
    (h : R.Hooks .idle hook) (fuel : Nat) (program : List Stmt) {s : State} (hs : s.env.Nested)
    (hover : ¬(R.lossy ∧ Run.Overflowed ((Evaluator.ofFuel library fuel).run program s))) :
    (Evaluator.hooked library hook fuel).run program (R.state s) =
      match (Evaluator.ofFuel library fuel).run program s with
      | .ok o t => .ok o (R.state t)
      | .error e t => .error e (R.state t) := by
  have hprogram : program.map (Stmt.mapSpans R.span) = program := by
    rw [hspan]
    exact List.map_id'' Stmt.mapSpans_id program
  have hrun := (hooked_follows hl h fuel).run program s hs
  rw [Evaluator.hooked_idle, hprogram] at hrun
  exact (hrun.2.resolve_right hover).trans (result_of_id hspan _)

end Recast

end BasicScript
