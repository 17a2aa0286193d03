import BasicScript.Proofs.Frame.Moment

/-! # The stacks

Scopes, calls and return types are left as they were found, on every way out.
While the body of a sub is executed, its return type is on top: what its
statements would do elsewhere makes no difference to the call.
-/

namespace BasicScript

/-- The same active scopes, calls and return types. -/
structure State.SameStacks (s t : State) : Prop where
  active : t.env.active = s.env.active
  calls : t.calls = s.calls
  returns : t.returns = s.returns

theorem Frame.sameStacks {o : Prop} {s t : State} (h : Frame o s t) : s.SameStacks t :=
  ⟨h.active, h.calls, h.returns⟩

/-- The evaluator with fuel whose statements are executed by the rules only where the return types
are the given ones. Elsewhere something else takes their place, also inside of other statements. -/
def Evaluator.guarded (library : Library) (returns : List Ty) (other : Stmt → Run Flow) :
    Nat → Evaluator
  | 0 => exhausted library
  | fuel + 1 =>
    { ofFuel library (fuel + 1) with
      exec := fun stmt s =>
        if s.returns = returns then (guarded library returns other fuel).stmt stmt s
        else other stmt s }

namespace Evaluator

open Run (Tracks)

variable {library : Library}

theorem ofFuel_precedes_self {c : Prop} (hl : library.Framed c) (n : Nat) :
    (ofFuel library n).Precedes none c (ofFuel library n) := by
  rw [← interrupted_never]
  exact interrupted_precedes_self hl _ n

/-- Where the return types are the given ones, the guards make no difference. -/
theorem guarded_precedes (hl : library.Framed False) (returns : List Ty)
    (other : Stmt → Run Flow) (n : Nat) :
    (guarded library returns other n).Precedes (some returns) False (ofFuel library n) := by
  induction n with
  | zero =>
    exact
      { library := rfl
        rounds := .inl rfl
        eval := fun _ _ => .still fun _ => rfl
        exec := fun _ => .still fun _ => rfl
        default := fun _ => .still fun _ => rfl
        invoke := fun _ _ => .still fun _ => rfl }
  | succ n ih =>
    have hself := ofFuel_precedes_self hl (n + 1)
    refine
      { library := rfl
        rounds := .inl rfl
        eval := fun hint e => (hself.eval hint e).everywhere
        exec := fun stmt s hs => ?_
        default := fun t => (hself.default t).everywhere
        invoke := fun name args => (hself.invoke name args).everywhere }
    have hguard : (guarded library returns other (n + 1)).exec stmt s =
        (guarded library returns other n).stmt stmt s := if_pos (hs returns rfl)
    rw [hguard]
    exact ih.stmt stmt s hs

/-- While the body of a sub runs, its return type is on top of those of the callers. -/
theorem runBody_guarded (hl : library.Framed False) (n : Nat) (sub : Sub) (bound : List Value)
    (s : State) (other : Stmt → Run Flow) :
    (guarded library (sub.returns :: s.returns) other n).runBody sub bound s =
      (ofFuel library n).runBody sub bound s := by
  have h := guarded_precedes hl (sub.returns :: s.returns) other n
  have hdefault : ∀ t, Tracks (some s.returns) False False
      ((guarded library (sub.returns :: s.returns) other n).default t)
      ((ofFuel library n).default t) := by
    intro t
    have heq : (guarded library (sub.returns :: s.returns) other n).default =
        (ofFuel library n).default := by cases n <;> rfl
    rw [heq]
    exact ((ofFuel_precedes_self hl n).default t).everywhere
  have hrun := Precedes.runBody (ρ := some s.returns) hdefault (h.block sub.body) bound s
    fun ts hts => Option.some.inj hts
  exact hrun.2.resolve_right fun hcut => hcut.1

/-- Whatever an interpreter is asked for, and however that ends, the stacks are as they were; and
no statement of the body of a sub is executed but with the return type of the sub on top. -/
theorem stacks_kept (fuel : Nat) (s : State) :
    (∀ program, s.SameStacks (((ofFuel .standard fuel).run program).state s)) ∧
    (∀ e, s.SameStacks (((ofFuel .standard fuel).evaluate e).state s)) ∧
    (∀ stmt, s.SameStacks (((ofFuel .standard fuel).exec stmt).state s)) ∧
    (∀ body, s.SameStacks (((ofFuel .standard fuel).block body).state s)) ∧
    (∀ hint e, s.SameStacks (((ofFuel .standard fuel).eval hint e).state s)) ∧
    (∀ name values, s.SameStacks (((ofFuel .standard fuel).invoke name values).state s)) ∧
    (∀ written, s.SameStacks (((ofFuel .standard fuel).resolveType written).state s)) ∧
    (∀ t, s.SameStacks (((ofFuel .standard fuel).default t).state s)) ∧
    ∀ sub bound other,
      (guarded .standard (sub.returns :: s.returns) other fuel).runBody sub bound s =
        (ofFuel .standard fuel).runBody sub bound s := by
  have h := ofFuel_precedes_self (c := False) Library.standard_framed fuel
  refine ⟨fun program => ?_, fun e => ?_, fun stmt => ?_, fun body => ?_, fun hint e => ?_,
    fun name values => ?_, fun written => ?_, fun t => ?_, fun sub bound other => ?_⟩
  · exact ((h.run program).frame s).sameStacks
  · exact ((h.evaluate e).frame s).sameStacks
  · exact ((h.exec stmt).frame s).sameStacks
  · exact ((h.block body).frame s).sameStacks
  · exact ((h.eval hint e).frame s).sameStacks
  · exact ((h.invoke name values).frame s).sameStacks
  · exact ((h.resolveType (o := False) written).frame s).sameStacks
  · exact ((h.default t).frame s).sameStacks
  · exact runBody_guarded Library.standard_framed fuel sub bound s other

end Evaluator

end BasicScript
