import BasicScript.Interpreter
import BasicScript.Proofs.Frame.Expression
import BasicScript.Proofs.Library.Natives

/-! # Moments of a run

A run may be interrupted wherever a rule would start. The states in which
interrupted runs end are the moments of the run, and fuel is one of the things
that can interrupt it. A moment that comes later has grown from the earlier
ones, and a run that is not interrupted ends in the same way with more fuel.
-/

namespace BasicScript

/-- Stops in the states that are to halt the run. -/
def Run.unlessHalted {α : Type} (halt : State → Bool) (x : Run α) : Run α := fun s =>
  if halt s then Run.exhausted s else x s

/-- The evaluator with fuel whose rules do not start in the states that are to halt the run. -/
def Evaluator.interrupted (library : Library) (halt : State → Bool) : Nat → Evaluator
  | 0 => exhausted library
  | fuel + 1 =>
    { library := library
      rounds := fuel
      eval := fun hint e => Run.unlessHalted halt ((interrupted library halt fuel).expr hint e)
      exec := fun s => Run.unlessHalted halt ((interrupted library halt fuel).stmt s)
      default := fun t => Run.unlessHalted halt ((interrupted library halt fuel).defaultValue t)
      invoke := fun name args =>
        Run.unlessHalted halt ((interrupted library halt fuel).callValues name args) }

/-- States that runs of programs, one after another, reach from a state: where they end, and all
their moments. -/
inductive Reaches (library : Library) (s : State) : State → Prop where
  | refl : Reaches library s s
  | run {t : State} (program : List Stmt) (halt : State → Bool) (fuel : Nat) :
      Reaches library s t →
      Reaches library s (((Evaluator.interrupted library halt fuel).run program).state t)

/-- Of two moments the second is not the earlier one: it comes later in the same run, which is then
halted later or has more fuel, or in runs that go on from the first. -/
inductive Later (library : Library) : State → State → Prop where
  | refl (s : State) : Later library s s
  | within (s : State) (program : List Stmt) {halt halt' : State → Bool} {n m : Nat}
      (hhalt : ∀ t, halt' t = true → halt t = true) (hfuel : n ≤ m) :
      Later library (((Evaluator.interrupted library halt n).run program).state s)
        (((Evaluator.interrupted library halt' m).run program).state s)
  | run (s : State) (program : List Stmt) (halt : State → Bool) (fuel : Nat) :
      Later library s (((Evaluator.interrupted library halt fuel).run program).state s)
  | trans {s t u : State} : Later library s t → Later library t u → Later library s u

theorem Run.unlessHalted_never {α : Type} (x : Run α) :
    Run.unlessHalted (fun _ => false) x = x := rfl

theorem Evaluator.interrupted_never (library : Library) (fuel : Nat) :
    interrupted library (fun _ => false) fuel = ofFuel library fuel := by
  induction fuel with
  | zero => rfl
  | succ fuel ih => simp only [interrupted, ofFuel, ih, Run.unlessHalted_never]

theorem Evaluator.ofFuel_library (library : Library) (fuel : Nat) :
    (ofFuel library fuel).library = library := by
  cases fuel <;> rfl

theorem Evaluator.interrupted_library (library : Library) (halt : State → Bool) (fuel : Nat) :
    (interrupted library halt fuel).library = library := by
  cases fuel <;> rfl

namespace Run.Tracks

variable {α : Type} {ρ : Option (List Ty)} {c o : Prop} {x y : Run α}

/-- The first run may be halted where the second is not. -/
theorem unlessHalted {halt halt' : State → Bool}
    (hh : ∀ s, halt s = halt' s ∨ c ∧ halt s = true) (h : Tracks ρ c o x y) :
    Tracks ρ c o (Run.unlessHalted halt x) (Run.unlessHalted halt' y) := by
  intro s hs
  by_cases h' : halt' s = true
  · have hy : Run.unlessHalted halt' y s = .error .outOfFuel s := if_pos h'
    refine ⟨still_at hy, .inl (Eq.trans ?_ hy.symm)⟩
    exact if_pos ((hh s).elim (fun heq => heq.trans h') And.right)
  · have hy : Run.unlessHalted halt' y s = y s := if_neg h'
    have hstate : (Run.unlessHalted halt' y).state s = y.state s := by
      simp only [state, hy]
    rw [hstate, hy]
    refine ⟨(h s hs).1, ?_⟩
    by_cases hhalt : halt s = true
    · have hc : c := (hh s).elim (fun heq => absurd (heq ▸ hhalt) h') And.left
      exact .inr ⟨hc, s, if_pos hhalt, (h s hs).1.grows⟩
    · have hx : Run.unlessHalted halt x s = x s := if_neg hhalt
      rw [hx]
      exact (h s hs).2

/-- A run without fuel is cut short at once. -/
theorem exhausted (hc : c) (hy : Tracks ρ c o y y) : Tracks ρ c o Run.exhausted y :=
  fun s hs => ⟨(hy s hs).1, .inr ⟨hc, s, rfl, (hy s hs).1.grows⟩⟩

end Run.Tracks

namespace Evaluator

open Run (Tracks)
open Run.Tracks (read require pure fail failOn)

variable {c o : Prop} {library : Library}

theorem exhausted_precedes (library : Library) :
    (exhausted library).Precedes none c (exhausted library) where
  library := rfl
  rounds := .inl rfl
  eval _ _ := .still fun _ => rfl
  exec _ := .still fun _ => rfl
  default _ := .still fun _ => rfl
  invoke _ _ := .still fun _ => rfl

theorem Precedes.next {r r' : Evaluator} (h : r.Precedes none c r')
    (hl : r'.library.Framed c) {halt halt' : State → Bool}
    (hh : ∀ s, halt s = halt' s ∨ c ∧ halt s = true) {n m : Nat} (hnm : n = m ∨ c ∧ n ≤ m) :
    Precedes none c
      { library := r.library
        rounds := n
        eval := fun hint e => Run.unlessHalted halt (r.expr hint e)
        exec := fun s => Run.unlessHalted halt (r.stmt s)
        default := fun t => Run.unlessHalted halt (r.defaultValue t)
        invoke := fun name args => Run.unlessHalted halt (r.callValues name args) }
      { library := r'.library
        rounds := m
        eval := fun hint e => Run.unlessHalted halt' (r'.expr hint e)
        exec := fun s => Run.unlessHalted halt' (r'.stmt s)
        default := fun t => Run.unlessHalted halt' (r'.defaultValue t)
        invoke := fun name args => Run.unlessHalted halt' (r'.callValues name args) } where
  library := h.library
  rounds := hnm
  eval hint e := (h.expr hl hint e).unlessHalted hh
  exec s := (h.stmt s).unlessHalted hh
  default t := (h.defaultValue t).unlessHalted hh
  invoke name args := (h.callValues hl name args).unlessHalted hh

theorem interrupted_precedes_self (hl : library.Framed c) (halt : State → Bool) (n : Nat) :
    (interrupted library halt n).Precedes none c (interrupted library halt n) := by
  induction n with
  | zero => exact exhausted_precedes library
  | succ n ih =>
    have hnext := ih.next (by rwa [interrupted_library]) (fun s => .inl (rfl : halt s = halt s))
      (.inl (rfl : n = n))
    rwa [interrupted_library] at hnext

/-- The evaluator that is interrupted sooner, or has less fuel, is cut short where the other
goes on. -/
theorem interrupted_precedes (hl : library.Framed True) {halt halt' : State → Bool}
    (hh : ∀ s, halt' s = true → halt s = true) {n m : Nat} (hnm : n ≤ m) :
    (interrupted library halt n).Precedes none True (interrupted library halt' m) := by
  induction n generalizing m with
  | zero =>
    have hself := interrupted_precedes_self hl halt' m
    exact
      { library := (interrupted_library library halt' m).symm
        rounds := .inr ⟨trivial, Nat.zero_le _⟩
        eval := fun hint e => .exhausted trivial (hself.eval hint e)
        exec := fun s => .exhausted trivial (hself.exec s)
        default := fun t => .exhausted trivial (hself.default t)
        invoke := fun name args => .exhausted trivial (hself.invoke name args) }
  | succ n ih =>
    obtain ⟨m, rfl⟩ : ∃ k, m = k + 1 := ⟨m - 1, by omega⟩
    have hle : n ≤ m := Nat.le_of_succ_le_succ hnm
    have hhalt : ∀ s, halt s = halt' s ∨ True ∧ halt s = true := by
      intro s
      cases h' : halt' s with
      | true => exact .inr ⟨trivial, hh s h'⟩
      | false =>
        cases h : halt s with
        | true => exact .inr ⟨trivial, rfl⟩
        | false => exact .inl rfl
    have hnext := (ih hle).next (by rwa [interrupted_library]) hhalt (.inr ⟨trivial, hle⟩)
    rwa [interrupted_library, interrupted_library] at hnext

variable {r r' : Evaluator}

theorem Precedes.loadCore (h : r.Precedes none c r') :
    Tracks none c True r.loadCore r'.loadCore := by
  intro s hs
  -- core declarations that are not pending are left alone
  have hdone : (∀ r : Evaluator, r.loadCore s = .ok () s) → Frame True s (r'.loadCore.state s) ∧
      (r.loadCore s = r'.loadCore s ∨ c ∧ ∃ s₁, r.loadCore s = .error .outOfFuel s₁ ∧
        s₁.Grows (r'.loadCore.state s)) := by
    intro heq
    rw [Run.state_ok (heq r')]
    exact ⟨.refl True s, .inl ((heq r).trans (heq r').symm)⟩
  cases hcore : s.core with
  | disabled => exact hdone fun r => by simp only [Evaluator.loadCore, hcore]
  | loaded => exact hdone fun r => by simp only [Evaluator.loadCore, hcore]
  | pending =>
    have heq : ∀ r : Evaluator, r.loadCore s =
        (do let _ ← r.block coreDeclarations : Run Unit) { s with core := .loaded } :=
      fun r => by simp only [Evaluator.loadCore, hcore]
    have hstate : r'.loadCore.state s = Run.state
        (do let _ ← r'.block coreDeclarations : Run Unit) { s with core := .loaded } := by
      simp only [Run.state, heq]
    obtain ⟨hframe, hsame⟩ := ((h.block coreDeclarations).bind fun _ => pure ())
      { s with core := .loaded } hs
    rw [hstate, heq, heq]
    exact ⟨⟨⟨hframe.grows.store, hframe.grows.scopes⟩, hframe.active, hframe.calls,
      hframe.returns, hframe.tables⟩, hsame⟩

theorem Precedes.run (h : r.Precedes none c r') (program : List Stmt) :
    Tracks none c True (r.run program) (r'.run program) := by
  refine h.loadCore.bind fun _ => (h.block program).bind fun flow => ?_
  split
  · exact pure _
  · exact pure _
  · exact pure _
  · exact fail _

theorem Precedes.evaluate (h : r.Precedes none c r') (e : Expr) :
    Tracks none c True (r.evaluate e) (r'.evaluate e) :=
  h.loadCore.bind fun _ => (h.eval none e).opened

end Evaluator

theorem Run.Plain.tracks {x : Run Value} (h : x.Plain) {c o : Prop} :
    Run.Tracks none c o x x := by
  refine .same fun s => ?_
  rcases h s with ⟨v, console, hx, -⟩ | ⟨e, hx⟩
  · rw [Run.state_ok hx]
    exact ⟨⟨.refl _, .refl Scope.Extends.refl _⟩, rfl, rfl, rfl, fun _ _ _ => rfl⟩
  · rw [Run.state_error hx]
    exact .refl o s

/-- The natives of the standard library keep inside the frame. -/
theorem Library.standard_framed {c : Prop} : standard.Framed c := by
  intro signature native hlookup call call' _ args
  obtain ⟨f, hf, hplain⟩ := standard_plain hlookup
  rw [hf]
  exact (hplain args).tracks

/-- States only grow from one moment to a later one. -/
theorem Later.grows {library : Library} (hl : ∀ c, library.Framed c) {s t : State}
    (h : Later library s t) : s.Grows t := by
  induction h with
  | refl s => exact .refl s
  | @within s program halt halt' n m hhalt hfuel =>
    have htracks := (Evaluator.interrupted_precedes (hl True) hhalt hfuel).run program s
      fun _ h => nomatch h
    rcases htracks.2 with hsame | ⟨-, t, hcut, hgrows⟩
    · rw [show ((Evaluator.interrupted library halt n).run program).state s =
        ((Evaluator.interrupted library halt' m).run program).state s by
          simp only [Run.state, hsame]]
      exact .refl _
    · rwa [Run.state_error hcut]
  | run s program halt fuel =>
    exact (((Evaluator.interrupted_precedes_self (hl False) halt fuel).run program).frame s).grows
  | trans _ _ ih ih' => exact ih.trans ih'

end BasicScript
