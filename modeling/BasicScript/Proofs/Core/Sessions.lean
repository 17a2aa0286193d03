import BasicScript.Proofs.Core.Expression
import BasicScript.Proofs.Core.Loading
import BasicScript.Proofs.Frame.Stacks

/-! # Sessions

A host asks an interpreter for one thing after another. The core declarations
come before the first program that is run and the first expression that is
evaluated, whichever is asked for first; statements, blocks and calls do
without them. They are not tried a second time, so what follows a loading that
failed is served with those alone that had been reached.
-/

namespace BasicScript

/-- What a host asks of an interpreter. -/
inductive Request where
  | run (program : List Stmt)
  | evaluate (e : Expr)
  | execute (stmt : Stmt)
  | block (body : List Stmt)
  | invoke (name : String) (args : List Value)

/-- Whether the core declarations come before the code of the host. -/
def Request.loads : Request → Bool
  | .run _ | .evaluate _ => true
  | .execute _ | .block _ | .invoke _ _ => false

/-- What a host gets. -/
inductive Answer where
  | outcome (outcome : Outcome)
  | value (value : Value)
  | flow (flow : Flow)

namespace Evaluator

variable (r : Evaluator)

/-- Serves a request. -/
def serve : Request → Run Answer
  | .run program => do return .outcome (← r.run program)
  | .evaluate e => do return .value (← r.evaluate e)
  | .execute stmt => do return .flow (← r.exec stmt)
  | .block body => do return .flow (← r.block body)
  | .invoke name args => do return .value (← r.invoke name args)

/-- Runs the code of the host, whatever has become of the core declarations. -/
def userCode : Request → Run Answer
  | .run program => do
    match ← r.block program with
    | .normal | .signal .leave => pure (.outcome .completed)
    | .signal (.yield v) => pure (.outcome (.yielded v))
    | .signal s => Run.fail (.unmatchedSignal s.text)
  | .evaluate e => do return .value (← r.eval none e)
  | .execute stmt => do return .flow (← r.exec stmt)
  | .block body => do return .flow (← r.block body)
  | .invoke name args => do return .value (← r.invoke name args)

variable {r} {q : Request} {s t : State}

/-- Once the core declarations are loaded, the code of the host runs. -/
theorem serve_loaded (hq : q.loads = true) (h : r.loadCore s = .ok () t) :
    r.serve q s = r.userCode q t := by
  cases q with
  | run program =>
    refine (Run.bind_congr (Run.bind_ok h _) _).trans ?_
    cases hblock : r.block program t with
    | error e u =>
      exact (Run.bind_error (Run.bind_error hblock _) _).trans (Run.bind_error hblock _).symm
    | ok flow u =>
      refine (Run.bind_congr (Run.bind_ok hblock _) _).trans
        (Eq.trans ?_ (Run.bind_ok hblock _).symm)
      cases flow with
      | normal => rfl
      | signal signal => cases signal <;> rfl
  | evaluate e => exact Run.bind_congr (Run.bind_ok h _) _
  | execute | block | invoke => cases hq

/-- An error of the core declarations is the answer to the request. -/
theorem serve_refused {e : Stop} (hq : q.loads = true) (h : r.loadCore s = .error e t) :
    r.serve q s = .error e t := by
  cases q with
  | run | evaluate => exact Run.bind_error (Run.bind_error h _) _
  | execute | block | invoke => cases hq

/-- Requests that do without the core declarations are the code of the host alone. -/
theorem serve_other (hq : q.loads = false) (s : State) : r.serve q s = r.userCode q s := by
  cases q with
  | run | evaluate => cases hq
  | execute | block | invoke => rfl

/-- Where nothing is pending, the code of the host runs at once. -/
theorem serve_settled (hcore : s.core ≠ .pending) (q : Request) :
    r.serve q s = r.userCode q s := by
  cases hq : q.loads with
  | true => exact serve_loaded hq (loadCore_settled r hcore)
  | false => exact serve_other hq s

/-- While the core declarations are pending, code that they come before runs after all of them, or
not at all. -/
theorem serve_pending {library : Library} (hcore : s.core = .pending)
    (hs : s.env.current = globalPath) (hq : q.loads = true) (fuel : Nat) :
    (ofFuel library (fuel + 1)).serve q s =
        (ofFuel library (fuel + 1)).userCode q (s.loading coreSubs) ∨
      ∃ e t, s.LoadsPart library e t ∧
        (ofFuel library (fuel + 1)).serve q s = .error (.error e) t := by
  rcases loadCore_cases hcore hs fuel with hload | ⟨e, t, hpart, hload⟩
  · exact .inl (serve_loaded hq hload)
  · exact .inr ⟨e, t, hpart, serve_refused hq hload⟩

theorem KeepsCore.userCode (h : r.KeepsCore) (q : Request) : (r.userCode q).KeepsCore := by
  cases q with
  | run program =>
    refine (h.block program).bind fun flow => ?_
    split
    · exact .pure _
    · exact .pure _
    · exact .pure _
    · exact .fail _
  | evaluate e => exact (h.eval none e).bind fun _ => .pure _
  | execute stmt => exact (h.exec stmt).bind fun _ => .pure _
  | block body => exact (h.block body).bind fun _ => .pure _
  | invoke name args => exact (h.invoke name args).bind fun _ => .pure _

theorem Precedes.serve {c : Prop} (h : r.Precedes none c r) (q : Request) :
    Run.Tracks none c True (r.serve q) (r.serve q) := by
  cases q with
  | run program => exact (h.run program).bind fun _ => .pure _
  | evaluate e => exact (h.evaluate e).bind fun _ => .pure _
  | execute stmt => exact (h.exec stmt).bind fun _ => .pure _
  | block body => exact (h.block body).bind fun _ => .pure _
  | invoke name args => exact (h.invoke name args).opened.bind fun _ => .pure _

end Evaluator

/-- The requests that a host has made of an interpreter, and the state after them. Each has been
served to its end, with an answer or an error. -/
inductive Session (library : Library) (settings : Settings) : List Request → State → Prop where
  | start : Session library settings [] (.initial settings)
  | request {past : List Request} {s : State} (q : Request) (fuel : Nat) :
      Session library settings past s →
      (∀ t, (Evaluator.ofFuel library fuel).serve q s ≠ .error .outOfFuel t) →
      Session library settings (past ++ [q]) (((Evaluator.ofFuel library fuel).serve q).state s)

/-- The first request that came with the core declarations got no further than to one that was
refused. -/
def LoadingFailed (library : Library) (settings : Settings) (past : List Request) (s : State) :
    Prop :=
  ∃ before q after t e u, past = before ++ q :: after ∧ Session library settings before t ∧
    (∀ p ∈ before, p.loads = false) ∧ q.loads = true ∧ t.LoadsPart library e u ∧ u.Grows s

theorem LoadingFailed.later {library : Library} {settings : Settings} {past : List Request}
    {s t : State} (h : LoadingFailed library settings past s) (hgrows : s.Grows t) (q : Request) :
    LoadingFailed library settings (past ++ [q]) t := by
  obtain ⟨before, p, after, u, e, v, rfl, hsession, hbefore, hp, hpart, hv⟩ := h
  exact ⟨before, p, after ++ [q], u, e, v, by simp, hsession, hbefore, hp, hpart, hv.trans hgrows⟩

namespace Session

variable {library : Library} {settings : Settings} {past : List Request} {s : State}

/-- Between requests an interpreter is in the global scope. -/
theorem global (hl : library.Framed False) (h : Session library settings past s) :
    s.env.current = globalPath ∧ 0 < s.env.scopes.size := by
  induction h with
  | start => exact ⟨rfl, Nat.one_pos⟩
  | @request past s q fuel _ _ ih =>
    have hframe := ((Evaluator.ofFuel_precedes_self hl fuel).serve q).frame s
    exact ⟨hframe.current.trans ih.1, Nat.lt_of_lt_of_le ih.2 hframe.grows.scopes.size_le⟩

/-- The first request that comes with the core declarations declares them all, or it fails of
them. -/
theorem first_loads (hl : library.Framed False) (hk : library.KeepsCore)
    (h : Session library settings past s) (hpending : s.core = .pending)
    (hpast : ∀ p ∈ past, p.loads = false) {q : Request} (hq : q.loads = true) {fuel : Nat}
    (hends : ∀ t, (Evaluator.ofFuel library fuel).serve q s ≠ .error .outOfFuel t) :
    let t := ((Evaluator.ofFuel library fuel).serve q).state s
    t.core = .loaded ∧ (t.CoreDeclared ∨ LoadingFailed library settings (past ++ [q]) t) := by
  intro t
  obtain ⟨hglobal, hsize⟩ := h.global hl
  cases fuel with
  | zero =>
    have hload : (Evaluator.ofFuel library 0).loadCore s =
        .error .outOfFuel { s with core := .loaded } := by
      simp only [Evaluator.loadCore, hpending]
      rfl
    exact absurd (Evaluator.serve_refused hq hload) (hends _)
  | succ fuel =>
    rcases Evaluator.serve_pending hpending hglobal hq fuel with hrun | ⟨e, u, hpart, hrun⟩
    · -- the code of the host is what the request would be after all core declarations
      have hserve := hrun.trans
        (Evaluator.serve_settled (s := s.loading coreSubs) (by simp [State.loading]) q).symm
      have hgrows : (s.loading coreSubs).Grows t := by
        rw [show t = _ from Run.state_congr hserve]
        exact (((Evaluator.ofFuel_precedes_self hl _).serve q).frame _).grows
      have hkept := (Evaluator.ofFuel_keepsCore hk (fuel + 1)).userCode q (s.loading coreSubs)
      rw [← Run.state_congr hrun] at hkept
      exact ⟨hkept, .inl ((State.CoreDeclared.of_loading hglobal hsize).grows hgrows)⟩
    · have ht : t = u := Run.state_error hrun
      refine ⟨?_, .inr ⟨past, q, [], s, e, u, rfl, h, hpast, hq, hpart, ht ▸ .refl u⟩⟩
      obtain ⟨_, _, _, -, hu, -⟩ := hpart
      rw [ht, hu]
      rfl

/-- Before the first request that comes with the core declarations these are pending. From then on
they are all declared, unless their loading failed. -/
theorem loading (hl : library.Framed False) (hk : library.KeepsCore) (hcore : settings.core = true)
    (h : Session library settings past s) :
    s.core = .pending ∧ (∀ p ∈ past, p.loads = false) ∨
      s.core = .loaded ∧ (∃ p ∈ past, p.loads = true) ∧
        (s.CoreDeclared ∨ LoadingFailed library settings past s) := by
  induction h with
  | start =>
    refine .inl ⟨?_, fun _ hp => nomatch hp⟩
    simp only [State.initial, hcore, if_true]
  | @request past s q fuel hsession hends ih =>
    have hkeeps := (Evaluator.ofFuel_keepsCore hk fuel).userCode q s
    rcases ih with ⟨hpending, hpast⟩ | ⟨hloaded, ⟨p, hp, hloads⟩, hrest⟩
    · cases hq : q.loads with
      | false =>
        rw [← Run.state_congr (Evaluator.serve_other hq s), hpending] at hkeeps
        refine .inl ⟨hkeeps, List.forall_mem_append.mpr ⟨hpast, ?_⟩⟩
        exact List.forall_mem_singleton.mpr hq
      | true =>
        obtain ⟨hcore', hrest⟩ := first_loads hl hk hsession hpending hpast hq hends
        exact .inr ⟨hcore', ⟨q, List.mem_append_right _ (List.mem_singleton_self q), hq⟩, hrest⟩
    · have hsettled : s.core ≠ .pending := by simp [hloaded]
      have hframe := ((Evaluator.ofFuel_precedes_self hl fuel).serve q).frame s
      rw [← Run.state_congr (Evaluator.serve_settled hsettled q), hloaded] at hkeeps
      refine .inr ⟨hkeeps, ⟨p, List.mem_append_left _ hp, hloads⟩, ?_⟩
      exact hrest.imp (·.grows hframe.grows) (·.later hframe.grows q)

end Session

namespace Evaluator

variable {library : Library} {settings : Settings} {past : List Request} {s : State}

/-- In every session, the first request that comes with the core declarations has them all declared
in the global scope before any code of the host runs, or it ends with the error of the first that
is refused, and no code of the host runs. They are not tried again. Later requests run the code of
the host at once: with all core declarations still in the global scope, or with those alone that
came before the refused one. -/
theorem core_precedes_code (hl : library.Framed False) (hk : library.KeepsCore)
    (hcore : settings.core = true) (h : Session library settings past s) {q : Request}
    (hq : q.loads = true) (fuel : Nat) :
    let r := ofFuel library (fuel + 1)
    (∀ p ∈ past, p.loads = false) ∧
        ((s.loading coreSubs).CoreDeclared ∧
            r.serve q s = r.userCode q (s.loading coreSubs) ∨
          ∃ e t, s.LoadsPart library e t ∧ r.serve q s = .error (.error e) t) ∨
      (∃ p ∈ past, p.loads = true) ∧ r.serve q s = r.userCode q s ∧
        (s.CoreDeclared ∨ LoadingFailed library settings past s) := by
  intro r
  obtain ⟨hglobal, hsize⟩ := h.global hl
  rcases h.loading hl hk hcore with ⟨hpending, hpast⟩ | ⟨hloaded, hpast, hrest⟩
  · refine .inl ⟨hpast, (serve_pending hpending hglobal hq fuel).imp_left fun hrun => ?_⟩
    exact ⟨.of_loading hglobal hsize, hrun⟩
  · exact .inr ⟨hpast, serve_settled (by simp [hloaded]) q, hrest⟩

/-- A statement is executed without the core declarations. The expression that is evaluated after it
comes after all of them. -/
theorem core_precedes_code_callingAbs :
    let settings : Settings := ⟨true, none, true⟩
    let stmt : Stmt := .generated (.alias "Age" (.prim .int))
    let e : Expr := .generated (.invoke "abs" [.mk false (.generated (.literal (.int 1)))])
    let s := ((ofFuel .standard 1).serve (.execute stmt)).state (.initial settings)
    let r := ofFuel .standard 5
    Session .standard settings [.execute stmt] s ∧ (s.loading coreSubs).CoreDeclared ∧
      r.serve (.evaluate e) s = r.userCode (.evaluate e) (s.loading coreSubs) := by
  intro settings stmt e s r
  have hs : Session .standard settings [.execute stmt] s :=
    .request (.execute stmt) 1 .start fun _ h => nomatch h
  have hends : (match r.serve (.evaluate e) s with
      | .ok _ _ => true
      | .error _ _ => false) = true := by
    decide +kernel
  have hnoError : ∀ stop t, r.serve (.evaluate e) s ≠ .error stop t := by
    intro stop t hrun
    rw [hrun] at hends
    exact nomatch hends
  rcases core_precedes_code Library.standard_framed Library.standard_keepsCore rfl hs
    (q := .evaluate e) rfl 4 with ⟨-, hall | ⟨_, _, -, hrun⟩⟩ | ⟨⟨p, hp, hloads⟩, -, -⟩
  · exact ⟨hs, hall⟩
  · exact absurd hrun (hnoError _ _)
  · rw [List.mem_singleton.mp hp] at hloads
    exact nomatch hloads

/-- Without natives the first program fails of the core declarations. The second one runs without
them. -/
theorem core_abandoned :
    let r := ofFuel .empty 3
    ∃ e t u, r.serve (.run []) (.initial ⟨true, none, true⟩) = .error (.error e) t ∧
      ¬t.CoreDeclared ∧
      r.serve (.run [.generated (.yield (.generated (.literal (.int 1))))]) t =
        .ok (.outcome (.yielded (.int 1))) u := by
  refine ⟨_, _, _, rfl, fun hall => ?_, rfl⟩
  exact nomatch hall _ List.mem_cons_self

end Evaluator

end BasicScript
