import Mathlib.Data.Nat.Notation
import BasicScript.Proofs.Frame.Run

/-! # Rounds of a loop

A loop takes its step again and again, until the step asks for something else.
It ends normally exactly if some number of rounds leads to a state in which
the step asks it to stop.
-/

namespace BasicScript

namespace Run

/-- So many times in a row a step asks for more, which leads from one state to another. -/
inductive Rounds (step : Run LoopStep) : ℕ → State → State → Prop where
  | zero (s : State) : Rounds step 0 s s
  | succ {n : ℕ} {s t u : State} : Rounds step n s t → step t = .ok .again u →
      Rounds step (n + 1) s u

variable {step : Run LoopStep} {n m : ℕ} {s t u : State}

theorem Rounds.after (h : step s = .ok .again t) (hrounds : Rounds step n t u) :
    Rounds step (n + 1) s u := by
  induction hrounds with
  | zero t => exact (Rounds.zero s).succ h
  | succ _ hstep ih => exact (ih h).succ hstep

/-- The rounds that have been taken can be left out. -/
theorem Rounds.loop (h : Rounds step n s t) (m : ℕ) :
    Run.loop step (n + m) s = Run.loop step m t := by
  induction h generalizing m with
  | zero s => rw [Nat.zero_add]
  | @succ n s t u _ hstep ih =>
    rw [Nat.add_right_comm, Nat.add_assoc, ih]
    exact bind_ok hstep _

/-- A loop ends normally where a step asks it to stop after fewer rounds than it may take. -/
theorem loop_normal_iff : Run.loop step m s = .ok .normal u ↔
    ∃ n < m, ∃ t, Rounds step n s t ∧ step t = .ok .stop u := by
  constructor
  · intro h
    induction m generalizing s with
    | zero => exact nomatch h
    | succ m ih =>
      obtain ⟨answer, t, hstep, hrest⟩ := exists_of_bind_ok h
      cases answer with
      | again =>
        obtain ⟨n, hn, v, hrounds, hstop⟩ := ih hrest
        exact ⟨n + 1, by omega, v, hrounds.after hstep, hstop⟩
      | stop =>
        obtain rfl : t = u := by injection hrest
        exact ⟨0, by omega, s, .zero s, hstep⟩
      | pass signal =>
        injection hrest with hflow
        exact nomatch hflow
  · rintro ⟨n, hn, t, hrounds, hstop⟩
    obtain ⟨more, rfl⟩ := Nat.exists_eq_add_of_lt hn
    rw [Nat.add_assoc, hrounds.loop]
    exact bind_ok hstop _

/-- An error of the first step ends the loop. -/
theorem loop_error {e : Stop} (h : step s = .error e t) (hm : 0 < m) :
    Run.loop step m s = .error e t := by
  obtain ⟨m, rfl⟩ := Nat.exists_eq_add_one_of_ne_zero (Nat.ne_of_gt hm)
  exact bind_error h _

section Invariant

variable {step' : Run LoopStep} {inv : State → Prop}

/-- What each round keeps, all rounds keep. -/
theorem Rounds.keeps (hkeep : ∀ t u, inv t → step t = .ok .again u → inv u)
    (h : Rounds step n s t) (hs : inv s) : inv t := by
  induction h with
  | zero => exact hs
  | succ _ hstep ih => exact hkeep _ _ (ih hs) hstep

theorem Rounds.imp (hkeep : ∀ t u, inv t → step t = .ok .again u → inv u)
    (hsame : ∀ t, inv t → step t = step' t) (h : Rounds step n s t) (hs : inv s) :
    Rounds step' n s t := by
  induction h with
  | zero => exact .zero _
  | succ hrounds hstep ih =>
    exact (ih hs).succ ((hsame _ (hrounds.keeps hkeep hs)).symm.trans hstep)

/-- Steps that do the same wherever an invariant holds lead through the same rounds. -/
theorem Rounds.congr (hkeep : ∀ t u, inv t → step t = .ok .again u → inv u)
    (hsame : ∀ t, inv t → step t = step' t) (hs : inv s) :
    Rounds step n s t ↔ Rounds step' n s t := by
  constructor
  · intro h
    exact h.imp hkeep hsame hs
  · intro h
    refine h.imp ?_ (fun t ht => (hsame t ht).symm) hs
    intro t u ht hstep
    exact hkeep t u ht ((hsame t ht).trans hstep)

theorem loop_congr (hkeep : ∀ t u, inv t → step t = .ok .again u → inv u)
    (hsame : ∀ t, inv t → step t = step' t) (hs : inv s) (m : ℕ) :
    Run.loop step m s = Run.loop step' m s := by
  induction m generalizing s with
  | zero => rfl
  | succ m ih =>
    cases hstep : step s with
    | error e t =>
      exact (bind_error hstep _).trans (bind_error ((hsame s hs).symm.trans hstep) _).symm
    | ok answer t =>
      refine (bind_ok hstep _).trans (Eq.trans ?_ (bind_ok ((hsame s hs).symm.trans hstep) _).symm)
      cases answer with
      | again => exact ih (hkeep s t hs hstep)
      | stop => rfl
      | pass signal => rfl

/-- It is enough that the first step does the same, if it does not ask for more. -/
theorem loop_congr_last (hlast : ∀ t, step s ≠ .ok .again t) (hsame : step s = step' s) (m : ℕ) :
    Run.loop step m s = Run.loop step' m s := by
  have hkeep : ∀ t u, t = s → step t = .ok .again u → u = s := by
    rintro t u rfl hstep
    exact absurd hstep (hlast u)
  have hstays : ∀ t, t = s → step t = step' t := by
    rintro t rfl
    exact hsame
  exact loop_congr hkeep hstays rfl m

end Invariant

end Run

end BasicScript
