import BasicScript.Proofs.Frame.Visits
import BasicScript.Proofs.Keeping.Expression

/-! # Properties that hold at every moment

A lasting property that holds of the global scope at first holds of the
current path in all states that programs reach, and in those that they come
by: what the rules do in states without it makes no difference.
-/

namespace BasicScript

variable {P : Environment → ScopePath → Prop}

theorem Run.Abides.unlessHalted {α : Type} {paths : List ScopePath} {halt : State → Bool}
    {x y z : Run α} (h : Abides P paths x y)
    (hz : ∀ s : State, P s.env s.env.current → z s = Run.unlessHalted halt y s) :
    Abides P paths (Run.unlessHalted halt x) z := by
  intro s hs
  rw [hz s hs.current]
  by_cases hhalt : halt s = true
  · have hexhausted : ∀ u : Run α, Run.unlessHalted halt u s = Run.exhausted s :=
      fun u => if_pos hhalt
    have hstate : (Run.unlessHalted halt x).state s = s := state_error (hexhausted x)
    rw [hstate, hexhausted, hexhausted]
    exact ⟨rfl, hs⟩
  · have hgoes : ∀ u : Run α, Run.unlessHalted halt u s = u s := fun u => if_neg hhalt
    have hstate : (Run.unlessHalted halt x).state s = x.state s := by
      simp only [state, hgoes]
    rw [hstate, hgoes, hgoes]
    exact h s hs

namespace Evaluator

/-- What a hook does where the property does not hold makes no difference. -/
theorem interrupted_abides (hP : Environment.Lasting P) (halt : State → Bool) (hook : Hook)
    (hvalue : ∀ (x : Run Value) (s : State), P s.env s.env.current →
      hook.value x s = Run.unlessHalted halt x s)
    (hflow : ∀ (x : Run Flow) (s : State), P s.env s.env.current →
      hook.flow x s = Run.unlessHalted halt x s) (fuel : Nat) :
    (interrupted .standard halt fuel).Abides P (hooked .standard hook fuel) := by
  have hframed := interrupted_precedes_self (c := False) Library.standard_framed halt
  induction fuel with
  | zero =>
    constructor
    · exact hP
    · exact hframed 0
    · rfl
    · rfl
    · rfl
    · exact fun _ _ => .exhausted
    · exact fun _ => .exhausted
    · exact fun _ => .exhausted
    · exact fun _ _ => .exhausted
  | succ fuel ih =>
    constructor
    · exact hP
    · exact hframed (fuel + 1)
    · rfl
    · rfl
    · rfl
    · exact fun hint e => (ih.expr hint e).unlessHalted (hvalue _)
    · exact fun s => (ih.stmt s).unlessHalted (hflow _)
    · exact fun t => (ih.defaultValue t).unlessHalted (hvalue _)
    · exact fun name args => (ih.callValues name args).unlessHalted (hvalue _)

namespace Abides

open Run.Abides (pure fail)

variable {r r' : Evaluator}

theorem loadCore (h : r.Abides P r') : Run.Abides P [] r.loadCore r'.loadCore := by
  intro s hs
  have hblock := (h.block coreDeclarations).bind fun _ => pure ()
  obtain ⟨hsame, hkeeps⟩ := hblock { s with core := .loaded } (hs.of_env rfl)
  cases hcore : s.core with
  | pending =>
    have hrun : ∀ r : Evaluator, r.loadCore s =
        (do let _ ← r.block coreDeclarations : Run Unit) { s with core := .loaded } :=
      fun r => by simp only [Evaluator.loadCore, hcore]
    have hstate : r.loadCore.state s = Run.state
        (do let _ ← r.block coreDeclarations : Run Unit) { s with core := .loaded } := by
      simp only [Run.state, hrun]
    rw [hstate, hrun, hrun]
    exact ⟨hsame, hkeeps⟩
  | disabled | loaded =>
    have hrun : ∀ r : Evaluator, r.loadCore s = .ok () s :=
      fun r => r.loadCore_settled (by simp [hcore])
    rw [Run.state_ok (hrun r), hrun, hrun]
    exact ⟨rfl, hs⟩

theorem run (h : r.Abides P r') (program : List Stmt) :
    Run.Abides P [] (r.run program) (r'.run program) := by
  refine h.loadCore.bind fun _ => (h.block program).bind fun flow => ?_
  split
  · exact pure _
  · exact pure _
  · exact pure _
  · exact fail _

end Abides

end Evaluator

/-- A lasting property stays while programs run. -/
theorem Reaches.lasting (hP : Environment.Lasting P) {s t : State} (hs : P s.env s.env.current)
    (h : Reaches .standard s t) : P t.env t.env.current := by
  induction h with
  | refl => exact hs
  | run program halt fuel _ ih =>
    have habides := Evaluator.interrupted_abides hP halt (.halting halt)
      (fun _ _ _ => rfl) (fun _ _ _ => rfl) fuel
    exact ((habides.run program) _ (.of_current ih)).2.current

/-- A lasting property holds in all states that a run comes by. -/
theorem Visits.lasting (hP : Environment.Lasting P) {s t : State} (hs : P s.env s.env.current)
    (h : Visits .standard s t) : P t.env t.env.current := by
  obtain ⟨program, fuel, here, value, flow, hhere, hdiffer⟩ := h
  by_contra hnot
  have helsewhere : ∀ u : State, P u.env u.env.current → ¬here u = true :=
    fun u hu hu' => hnot (hhere u hu' ▸ hu)
  have habides := Evaluator.interrupted_abides hP (fun _ => false)
    (.detour here value flow) (fun x u hu => if_neg (helsewhere u hu))
    (fun x u hu => if_neg (helsewhere u hu)) fuel
  apply hdiffer
  rw [← ((habides.run program) s (.of_current hs)).1, Evaluator.interrupted_never]

end BasicScript
