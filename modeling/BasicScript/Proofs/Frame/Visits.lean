import BasicScript.Proofs.Frame.Declarations
import BasicScript.Proofs.Recast.Program

/-! # States on the way

Between its first and its last state a run comes by others, in which scopes
are active that it leaves again. In all of them the scopes in reach exist, so
that a name found there is found again after whatever declares nothing.
-/

namespace BasicScript

/-- The hook that does something else in some states. -/
def Hook.detour (here : State → Bool) (value : Run Value) (flow : Run Flow) : Hook where
  value x s := if here s then value s else x s
  flow x s := if here s then flow s else x s

/-- Whether a rule starts in a state while a program runs from another: it makes a difference what
the rules do in that state alone. -/
def Visits (library : Library) (s t : State) : Prop :=
  ∃ (program : List Stmt) (fuel : Nat) (here : State → Bool) (value : Run Value) (flow : Run Flow),
    (∀ u, here u = true → u = t) ∧
      (Evaluator.hooked library (.detour here value flow) fuel).run program s ≠
        (Evaluator.ofFuel library fuel).run program s

namespace Recast

theorem Maps.unlessHalted {α : Type} {g : α → α} {x y : Run α} (halt : State → Bool)
    (h : same.Maps g x y) : same.Maps g (Run.unlessHalted halt x) (Run.unlessHalted halt y) := by
  intro s hs
  unfold Run.unlessHalted
  rw [same_state]
  by_cases hhalt : halt s = true
  · rw [if_pos hhalt, if_pos hhalt]
    have hexhausted := Carries.exhausted (R := same) (Q := fun _ : α => True) (g := g) s hs
    rwa [same_state] at hexhausted
  · rw [if_neg hhalt, if_neg hhalt]
    have hrun := h s hs
    rwa [same_state] at hrun

/-- A detour in a state that is not nested makes no difference to runs in nested ones. -/
theorem Maps.detour {α : Type} {g : α → α} {x y other : Run α} {here : State → Bool}
    (hhere : ∀ u : State, here u = true → ¬u.env.Nested) (h : same.Maps g x y) :
    same.Maps g x fun s => if here s then other s else y s := by
  intro s hs
  have hnot : ¬here (same.state s) = true := by
    rw [same_state]
    exact fun hs' => hhere s hs' hs
  dsimp only
  rw [if_neg hnot]
  exact h s hs

end Recast

/-- Nested states lead to nested states. -/
theorem Reaches.nested {library : Library} (hl : library.Recasts .same) {s t : State}
    (hs : s.env.Nested) (h : Reaches library s t) : t.env.Nested := by
  induction h with
  | refl => exact hs
  | @run t program halt fuel _ ih =>
    have hhooks : Recast.same.Hooks (.halting halt) (.halting halt) :=
      ⟨.unlessHalted halt, .unlessHalted halt⟩
    have hrun := (Recast.hooked_follows hl hhooks fuel).run program t ih
    rw [Evaluator.hooked_halting] at hrun
    have hends := hrun.1
    unfold Run.state
    cases hresult : (Evaluator.interrupted library halt fuel).run program t with
    | ok o u =>
      rw [hresult] at hends
      exact hends.1
    | error e u =>
      rw [hresult] at hends
      exact hends

/-- The states that a run comes by are nested, if it starts in a nested one. -/
theorem Visits.nested {library : Library} (hl : library.Recasts .same) {s t : State}
    (hs : s.env.Nested) (h : Visits library s t) : t.env.Nested := by
  obtain ⟨program, fuel, here, value, flow, hhere, hdiffer⟩ := h
  by_contra hnested
  have hdetour : ∀ u : State, here u = true → ¬u.env.Nested := fun u hu => hhere u hu ▸ hnested
  have hhooks : Recast.same.Hooks .idle (.detour here value flow) :=
    ⟨.detour hdetour, .detour hdetour⟩
  have hrun := Recast.hooked_run rfl hl hhooks fuel program hs fun hlossy => hlossy.1
  rw [Recast.same_state] at hrun
  apply hdiffer
  rw [hrun]
  cases (Evaluator.ofFuel library fuel).run program s <;> simp only [Recast.same_state]

theorem Evaluator.loadCore_settled (r : Evaluator) {s : State} (hcore : s.core ≠ .pending) :
    r.loadCore s = .ok () s := by
  unfold loadCore
  cases h : s.core with
  | pending => exact absurd h hcore
  | disabled => rfl
  | loaded => rfl

/-- A statement that ends normally leads on to another state that programs reach. -/
theorem Reaches.exec {library : Library} {s t u : State} {stmt : Stmt} {fuel : Nat}
    (h : Reaches library s t) (hcore : t.core ≠ .pending)
    (hexec : (Evaluator.ofFuel library fuel).exec stmt t = .ok .normal u) :
    Reaches library s u := by
  have hblock : (Evaluator.ofFuel library fuel).block [stmt] t = .ok .normal u :=
    Run.bind_ok hexec _
  have hrun : (Evaluator.ofFuel library fuel).run [stmt] t = .ok .completed u :=
    (Run.bind_ok (Evaluator.loadCore_settled _ hcore) _).trans (Run.bind_ok hblock _)
  have hreached := h.run [stmt] (fun _ => false) fuel
  rwa [Evaluator.interrupted_never, Run.state_ok hrun] at hreached

/-- Statements go on where others have ended. -/
theorem Evaluator.block_append {r : Evaluator} {before : List Stmt} {s t : State}
    (h : r.block before s = .ok .normal t) (rest : List Stmt) :
    r.block (before ++ rest) s = r.block rest t := by
  induction before generalizing s with
  | nil =>
    cases h
    rfl
  | cons stmt before ih =>
    obtain ⟨flow, u, hstmt, hrest⟩ := Run.exists_of_bind_ok h
    cases flow with
    | normal => exact (Run.bind_ok hstmt _).trans (ih hrest)
    | signal signal => exact nomatch hrest

/-- A run that executes a block comes by the state in which statements of the block end that have
not come by it before. -/
theorem Visits.inside (library : Library) {s t : State} (hcore : s.core ≠ .pending) (hs : s ≠ t)
    (before : List Stmt) (hbefore : ∀ hook : Hook, (∀ x u, u ≠ t → hook.flow x u = x u) →
      (Evaluator.hooked library hook 1).block before { s with env := s.env.push } =
        .ok .normal t) : Visits library s t := by
  classical
  let hook := Hook.detour (fun u => decide (u = t)) Run.exhausted Run.exhausted
  let program : List Stmt := [.generated (.block (before ++ [.generated .none]))]
  have helsewhere : ∀ x u, u ≠ t → hook.flow x u = x u := fun x u hu => if_neg (by simp [hu])
  -- the statement at the end of the block is not executed, where all before it are
  have hhalts : (Evaluator.hooked library hook 1).exec (.generated .none) t =
      .error .outOfFuel t := if_pos (decide_eq_true rfl)
  have hblock : (Evaluator.hooked library hook 1).block (before ++ [.generated .none])
      { s with env := s.env.push } = .error .outOfFuel t :=
    (Evaluator.block_append (hbefore hook helsewhere) _).trans (Run.bind_error hhalts _)
  have hexec : (Evaluator.hooked library hook 2).exec
      (.generated (.block (before ++ [.generated .none]))) s =
        .error .outOfFuel (Run.popScope t) := by
    refine (helsewhere _ s hs).trans ?_
    show Run.traced _ _ (Run.inScope _) s = _
    simp only [Run.traced, Run.mapReport, Run.inScope, Run.leaving, hblock, Stop.mapReport]
  have hhooked : (Evaluator.hooked library hook 2).run program s =
      .error .outOfFuel (Run.popScope t) :=
    (Run.bind_ok (Evaluator.loadCore_settled _ hcore) _).trans
      (Run.bind_error (Run.bind_error hexec _) _)
  have hplain : (Evaluator.ofFuel library 1).block (before ++ [.generated .none])
      { s with env := s.env.push } = .ok .normal t := by
    have hdone := hbefore .idle fun _ _ _ => rfl
    rw [Evaluator.hooked_idle] at hdone
    exact (Evaluator.block_append hdone _).trans rfl
  have hexec' : (Evaluator.ofFuel library 2).exec
      (.generated (.block (before ++ [.generated .none]))) s = .ok .normal (Run.popScope t) := by
    show Run.traced _ _ (Run.inScope _) s = _
    simp only [Run.traced, Run.mapReport, Run.inScope, Run.leaving, hplain]
  have hprogram : (Evaluator.ofFuel library 2).block program s = .ok .normal (Run.popScope t) :=
    (Run.bind_ok hexec' _).trans rfl
  have hrun : (Evaluator.ofFuel library 2).run program s = .ok .completed (Run.popScope t) :=
    (Run.bind_ok (Evaluator.loadCore_settled _ hcore) _).trans (Run.bind_ok hprogram _)
  refine ⟨program, 2, _, Run.exhausted, Run.exhausted, fun u hu => of_decide_eq_true hu, ?_⟩
  rw [hhooked, hrun]
  intro heq
  cases heq

/-- A run that executes a block comes by the state at its beginning. -/
theorem Visits.block (library : Library) {s : State} (hcore : s.core ≠ .pending) :
    Visits library s { s with env := s.env.push } := by
  refine .inside library hcore (fun heq => ?_) [] fun _ _ => rfl
  have hactive : s.env.active.length = s.env.active.length + 1 :=
    congrArg (fun u => u.env.active.length) heq
  omega

/-- The same tables of all scopes, and the same active paths. -/
structure State.SameTables (s t : State) : Prop where
  size : s.env.scopes.size ≤ t.env.scopes.size
  active : t.env.active = s.env.active
  scopes : ∀ i < s.env.scopes.size, t.env.scopes[i]? = s.env.scopes[i]?

theorem State.DeclaresOnly.sameTables {s t : State} (h : s.DeclaresOnly [] t) : s.SameTables t where
  size := h.size
  active := h.active
  scopes i hi := by
    by_cases hne : i = s.env.currentId.index
    · subst hne
      obtain ⟨sc', hsc', hgains⟩ := h.here _ (Array.getElem?_eq_getElem hi)
      rw [hsc', hgains.eq_of_nil]
      exact (Array.getElem?_eq_getElem hi).symm
    · exact h.elsewhere i hi hne

/-- In the states that programs reach, and in those that they come by, no expression changes a
declaration. A statement declares what its form says in the scope in which it is executed, beside
what there is, and where it says nothing every name keeps its meaning. -/
theorem Reaches.declarations_stay {settings : Settings} {s t : State}
    (h : Reaches .standard (.initial settings) s) (ht : t = s ∨ Visits .standard s t)
    (fuel : Nat) :
    let r := Evaluator.ofFuel .standard fuel
    (∀ hint e, t.SameTables ((r.eval hint e).state t) ∧ t.SameNames ((r.eval hint e).state t)) ∧
    (∀ type, t.SameTables ((r.default type).state t) ∧ t.SameNames ((r.default type).state t)) ∧
    (∀ name vs, t.SameTables ((r.invoke name vs).state t) ∧
      t.SameNames ((r.invoke name vs).state t)) ∧
    (∀ written, t.SameTables ((r.resolveType written).state t) ∧
      t.SameNames ((r.resolveType written).state t)) ∧
    (∀ stmt, t.DeclaresOnly stmt.kind.declares ((r.exec stmt).state t)) ∧
    ∀ stmt, stmt.kind.declares = [] →
      t.SameTables ((r.exec stmt).state t) ∧ t.SameNames ((r.exec stmt).state t) := by
  intro r
  have hnested : t.env.Nested := by
    have hs : s.env.Nested := h.nested (Library.standard_recasts .same) .fresh
    rcases ht with rfl | hvisits
    · exact hs
    · exact hvisits.nested (Library.standard_recasts .same) hs
  have hsame : ∀ {u : State}, t.DeclaresOnly [] u → t.SameTables u ∧ t.SameNames u :=
    fun hu => ⟨hu.sameTables, hu.sameNames hnested.current.2⟩
  have hself : r.Precedes none False r :=
    Evaluator.ofFuel_precedes_self Library.standard_framed fuel
  have hexec : ∀ stmt, t.DeclaresOnly stmt.kind.declares ((r.exec stmt).state t) := by
    intro stmt
    cases fuel with
    | zero => exact .ofFrame (.refl False t)
    | succ fuel =>
      exact (Evaluator.ofFuel_precedes_self (c := False) Library.standard_framed
        fuel).stmt_declares stmt t
  refine ⟨fun hint e => hsame (.ofFrame ?_), fun type => hsame (.ofFrame ?_),
    fun name vs => hsame (.ofFrame ?_), fun written => hsame (.ofFrame ?_), hexec,
    fun stmt hnone => hsame (hnone ▸ hexec stmt)⟩
  · exact (hself.eval hint e).frame t
  · exact (hself.default type).frame t
  · exact (hself.invoke name vs).frame t
  · exact (hself.resolveType written).frame t

/-- The statement `var x as int = n`. -/
def declaringWhole (n : Int32) : Stmt :=
  .generated (.declare "x" (.prim .int) (.generated (.literal (.int n))) false)

/-- Inside of a block, where the variable of the program is visible, another block declares a
variable of the same name; after it the name stands for the first one. -/
theorem declarations_stay_shadowing :
    let s := ((Evaluator.interrupted .standard (fun _ => false) 6).run [declaringWhole 1]).state
      (.initial ⟨false, none, true⟩)
    let t : State := { s with env := s.env.push }
    let inner := Stmt.generated (.block [declaringWhole 2])
    let u := ((Evaluator.ofFuel .standard 6).exec inner).state t
    Reaches .standard (.initial ⟨false, none, true⟩) s ∧ Visits .standard s t ∧
      t.env.active.length = 1 ∧ t.env.cell? "x" = some ⟨0⟩ ∧
      u.store.cells.size = 2 ∧ u.env.cell? "x" = some ⟨0⟩ := by
  intro s t inner u
  have hs : Reaches .standard (.initial ⟨false, none, true⟩) s :=
    .run [declaringWhole 1] (fun _ => false) 6 .refl
  have hvisits : Visits .standard s t := .block .standard (by decide +kernel)
  have hx : t.env.cell? "x" = some ⟨0⟩ := by decide +kernel
  have hsame := (Reaches.declarations_stay hs (.inr hvisits) 6).2.2.2.2.2 inner rfl
  exact ⟨hs, hvisits, by decide +kernel, hx, by decide +kernel, (hsame.2.cell "x").trans hx⟩

end BasicScript
