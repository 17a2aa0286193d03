import BasicScript.Proofs.Frame.Basic
import BasicScript.Proofs.Recast.Views

/-! # Recast runs

A recasting gives programs and states other spans, and calls a higher limit.
A recast run does, from the recast state, what the run does, and its outcome
is the recast outcome. Where the limit is raised this is true of runs that do
not overflow the stack of calls. The runs start in nested states, in which
every path leads outwards through scopes that exist.
-/

namespace BasicScript

/-- A path that leads from newer scopes to older ones. -/
def ScopePath.Outward (path : ScopePath) : Prop :=
  List.Pairwise (fun a b : ScopeId => b.index < a.index) path

/-- Every path leads outwards, and the active ones through scopes that exist. -/
structure Environment.Nested (env : Environment) : Prop where
  global : 0 < env.scopes.size
  active : ∀ path ∈ env.active,
    ScopePath.Outward path ∧ ∀ id ∈ path, id.index < env.scopes.size
  subs : ∀ (i : Nat) (sc : Scope), env.scopes[i]? = some sc →
    ∀ sub ∈ sc.subs, ScopePath.Outward sub.scope
  datas : ∀ (i : Nat) (sc : Scope), env.scopes[i]? = some sc →
    ∀ d ∈ sc.datas, ScopePath.Outward d.scope

namespace Environment.Nested

variable {env : Environment}

theorem fresh : Environment.fresh.Nested where
  global := Nat.zero_lt_one
  active _ h := nomatch h
  subs i sc hsc sub hsub := by
    obtain ⟨hi, rfl⟩ := Array.getElem?_eq_some_iff.mp hsc
    obtain rfl : i = 0 := Nat.lt_one_iff.mp hi
    exact nomatch hsub
  datas i sc hsc d hd := by
    obtain ⟨hi, rfl⟩ := Array.getElem?_eq_some_iff.mp hsc
    obtain rfl : i = 0 := Nat.lt_one_iff.mp hi
    exact nomatch hd

theorem current (h : env.Nested) :
    ScopePath.Outward env.current ∧ ∀ id ∈ env.current, id.index < env.scopes.size := by
  unfold Environment.current
  cases hactive : env.active with
  | nil =>
    refine ⟨List.pairwise_singleton _ _, fun id hid => ?_⟩
    obtain rfl : id = ⟨0⟩ := List.mem_singleton.mp hid
    exact h.global
  | cons path rest => exact h.active path (hactive ▸ List.mem_cons_self)

theorem currentId_lt (h : env.Nested) : env.currentId.index < env.scopes.size := by
  unfold Environment.currentId
  cases hcurrent : env.current with
  | nil => exact h.global
  | cons id rest => exact h.current.2 id (hcurrent ▸ List.mem_cons_self)

/-- A path outwards exists as far as its head does. -/
theorem exist_of_head (h : env.Nested) {path : ScopePath} (hpath : ScopePath.Outward path)
    (hlive : env.isLive path = true) : ∀ id ∈ path, id.index < env.scopes.size := by
  cases path with
  | nil => exact fun _ hid => nomatch hid
  | cons head rest =>
    have hhead : head.index < env.scopes.size := by
      simp only [Environment.isLive, List.head?_cons, Option.all_some, Bool.or_eq_true,
        List.contains_iff_mem, List.any_eq_true] at hlive
      rcases hlive with hcurrent | ⟨active, hactive, hmem⟩
      · exact h.current.2 head hcurrent
      · exact (h.active active hactive).2 head hmem
    intro id hid
    rcases List.mem_cons.mp hid with rfl | hid
    · exact hhead
    · exact Nat.lt_trans ((List.pairwise_cons.mp hpath).1 id hid) hhead

theorem pushBelow (h : env.Nested) {path : ScopePath} (hpath : ScopePath.Outward path)
    (hexist : ∀ id ∈ path, id.index < env.scopes.size) : (env.pushBelow path).Nested := by
  have hsize : (env.pushBelow path).scopes.size = env.scopes.size + 1 := Array.size_push _
  have hcases : ∀ (i : Nat) (sc : Scope), (env.scopes.push Scope.blank)[i]? = some sc →
      sc = .blank ∨ env.scopes[i]? = some sc := by
    intro i sc hsc
    rw [Array.getElem?_push] at hsc
    split at hsc
    · exact .inl (Option.some.inj hsc).symm
    · exact .inr hsc
  constructor
  · omega
  · intro p hp
    rcases List.mem_cons.mp hp with rfl | hp
    · refine ⟨List.pairwise_cons.mpr ⟨fun id hid => hexist id hid, hpath⟩, fun id hid => ?_⟩
      rcases List.mem_cons.mp hid with rfl | hid
      · show env.scopes.size < _
        omega
      · have := hexist id hid
        omega
    · refine ⟨(h.active p hp).1, fun id hid => ?_⟩
      have := (h.active p hp).2 id hid
      omega
  · intro i sc hsc
    rcases hcases i sc hsc with rfl | hsc
    · exact fun _ hsub => nomatch hsub
    · exact h.subs i sc hsc
  · intro i sc hsc
    rcases hcases i sc hsc with rfl | hsc
    · exact fun _ hd => nomatch hd
    · exact h.datas i sc hsc

theorem pop (h : env.Nested) : env.pop.Nested :=
  ⟨h.global, fun path hpath => h.active path (List.mem_of_mem_tail hpath), h.subs, h.datas⟩

/-- Declarations in the current scope that lead outwards. -/
theorem modifyCurrent (h : env.Nested) {f : Scope → Scope}
    (hsubs : ∀ sc : Scope, ∀ sub ∈ (f sc).subs, sub ∈ sc.subs ∨ ScopePath.Outward sub.scope)
    (hdatas : ∀ sc : Scope, ∀ d ∈ (f sc).datas, d ∈ sc.datas ∨ ScopePath.Outward d.scope) :
    (env.modifyCurrent f).Nested := by
  have hsize : (env.modifyCurrent f).scopes.size = env.scopes.size := Array.size_modify
  have hcases : ∀ (i : Nat) (sc : Scope), (env.modifyCurrent f).scopes[i]? = some sc →
      env.scopes[i]? = some sc ∨ ∃ sc₀, env.scopes[i]? = some sc₀ ∧ sc = f sc₀ := by
    intro i sc hsc
    have hsc' : (env.scopes.modify env.currentId.index f)[i]? = some sc := hsc
    rw [Array.getElem?_modify] at hsc'
    split at hsc'
    · obtain ⟨sc₀, hsc₀, rfl⟩ := Option.map_eq_some_iff.mp hsc'
      exact .inr ⟨sc₀, hsc₀, rfl⟩
    · exact .inl hsc'
  constructor
  · rw [hsize]
    exact h.global
  · rw [hsize]
    exact h.active
  · intro i sc hsc sub hsub
    rcases hcases i sc hsc with hsc | ⟨sc₀, hsc₀, rfl⟩
    · exact h.subs i sc hsc sub hsub
    · exact (hsubs sc₀ sub hsub).elim (h.subs i sc₀ hsc₀ sub) id
  · intro i sc hsc d hd
    rcases hcases i sc hsc with hsc | ⟨sc₀, hsc₀, rfl⟩
    · exact h.datas i sc hsc d hd
    · exact (hdatas sc₀ d hd).elim (h.datas i sc₀ hsc₀ d) id

theorem overloads (h : env.Nested) {name : String} {sub : Sub}
    (hsub : sub ∈ env.overloads name) : ScopePath.Outward sub.scope := by
  obtain ⟨id, -, hid⟩ := List.mem_flatMap.mp hsub
  have hmem := (List.mem_filter.mp hid).1
  unfold Environment.scope at hmem
  cases hsc : env.scopes[id.index]? with
  | none =>
    rw [hsc] at hmem
    exact nomatch hmem
  | some sc =>
    rw [hsc] at hmem
    exact h.subs id.index sc hsc sub hmem

theorem data? (h : env.Nested) {name : String} {d : DataDecl} (hd : env.data? name = some d) :
    ScopePath.Outward d.scope := by
  obtain ⟨id, -, hid⟩ := List.exists_of_findSome?_eq_some hd
  unfold Environment.scope at hid
  cases hsc : env.scopes[id.index]? with
  | none =>
    rw [hsc] at hid
    exact nomatch hid
  | some sc =>
    rw [hsc] at hid
    exact h.datas id.index sc hsc d (List.mem_of_find?_eq_some hid)

end Environment.Nested

/-- The table of the current scope stays in a closed frame. -/
theorem Frame.currentScope {s t : State} (h : Frame False s t) (hs : s.env.Nested) :
    t.env.currentScope = s.env.currentScope := by
  simp only [Environment.currentScope, Environment.scope, h.currentId,
    h.tables _ hs.currentId_lt False.elim]

/-- Other spans for programs and states, and another limit for calls. -/
structure Recast where
  span : Span → Span
  nowhere : span .nowhere = .nowhere
  limit : Option Nat → Option Nat
  /-- Calls have no less room than before. -/
  raises : ∀ l, ∀ m ∈ limit l, ∃ n ∈ l, n ≤ m
  /-- Whether runs that overflow the stack of calls may come out in another way. -/
  lossy : Prop
  exact : ¬lossy → ∀ l, limit l = l

/-- Whether a run stopped because there were too many calls. -/
def Stop.Overflows : Stop → Prop
  | .error e => ∃ n, e.fault = .stackOverflow n
  | .outOfFuel => False

/-- Whether an outcome is that there were too many calls. -/
def Run.Overflowed {α : Type} (outcome : EStateM.Result Stop State α) : Prop :=
  ∃ e t, outcome = .error e t ∧ e.Overflows

theorem Run.not_overflowed_ok {α : Type} (a : α) (t : State) : ¬Run.Overflowed (.ok a t) :=
  fun ⟨_, _, h, _⟩ => nomatch h

theorem Run.overflowed_error {α : Type} {e : Stop} {t : State} :
    Run.Overflowed (α := α) (.error e t) ↔ e.Overflows := by
  constructor
  · rintro ⟨e', t', h, hover⟩
    obtain ⟨rfl, -⟩ := EStateM.Result.error.inj h
    exact hover
  · exact fun hover => ⟨e, t, rfl, hover⟩

theorem Stop.Overflows.mapReport {e : Stop} (h : e.Overflows) {r : Report → Report}
    (hr : ∀ e, (r e).fault = e.fault) : (e.mapReport r).Overflows := by
  cases e with
  | error e => exact h.imp fun n hn => (hr e).trans hn
  | outOfFuel => exact h

namespace Recast

variable (R : Recast) {α β γ δ : Type}

/-- A recast state. -/
def state (s : State) : State :=
  { s with
    store := s.store.mapSpans R.span
    env := s.env.mapSpans R.span
    calls := ⟨s.calls.frames.map (CallFrame.mapSpans R.span), R.limit s.calls.limit⟩ }

/-- A recast reason to stop short. -/
def stop (e : Stop) : Stop := e.mapReport (Report.mapSpans R.span)

/-- A recast outcome. -/
def result (g : α → β) : EStateM.Result Stop State α → EStateM.Result Stop State β
  | .ok a s => .ok (g a) (R.state s)
  | .error e s => .error (R.stop e) (R.state s)

/-- An outcome in a nested state, with a result as claimed. -/
def Ends (Q : α → Prop) : EStateM.Result Stop State α → Prop
  | .ok a s => s.env.Nested ∧ Q a
  | .error _ s => s.env.Nested

/-- The second outcome is the first one recast, if that is to be taken account of. -/
def Agrees (Q : α → Prop) (g : α → β) (a : EStateM.Result Stop State α)
    (b : EStateM.Result Stop State β) : Prop :=
  Ends Q a ∧ (b = R.result g a ∨ R.lossy ∧ Run.Overflowed a)

/-- The second run is the first one recast: from recast states it has the recast outcome. -/
def Carries (Q : α → Prop) (g : α → β) (x : Run α) (y : Run β) : Prop :=
  ∀ s : State, s.env.Nested → R.Agrees Q g (x s) (y (R.state s))

/-- The second run is the first one recast, whatever its result is. -/
abbrev Maps (g : α → β) (x : Run α) (y : Run β) : Prop := R.Carries (fun _ => True) g x y

variable {R}

theorem state_pushBelow (s : State) (path : ScopePath) :
    R.state { s with env := s.env.pushBelow path } =
      { R.state s with env := (R.state s).env.pushBelow path } := by
  simp only [state, Environment.pushBelow_mapSpans]

theorem state_popCall (s : State) : R.state (Run.popCall s) = Run.popCall (R.state s) := by
  simp only [state, Run.popCall, CallStack.pop, List.map_tail]

/-- A call that there is room for has room after the recasting. -/
theorem push_ok {s : State} {frame : CallFrame} {calls : CallStack}
    (h : s.calls.push frame = .ok calls) :
    (R.state s).calls.push (frame.mapSpans R.span) =
      .ok (R.state { s with calls := calls }).calls := by
  obtain ⟨room, rfl⟩ : (∀ n ∈ s.calls.limit, s.calls.frames.length < n) ∧
      calls = ⟨frame :: s.calls.frames, s.calls.limit⟩ := by
    unfold CallStack.push at h
    split at h
    · next n hn =>
      split at h
      · exact nomatch h
      · next hlt =>
        refine ⟨fun m hm => ?_, (Except.ok.inj h).symm⟩
        obtain rfl : n = m := Option.some.inj (hn.symm.trans hm)
        exact Nat.lt_of_not_le hlt
    · next hn => exact ⟨fun m hm => (nomatch hn.symm.trans hm), (Except.ok.inj h).symm⟩
  unfold CallStack.push
  split
  · next m hm =>
    obtain ⟨n, hn, hle⟩ := R.raises _ m hm
    have hlt := room n hn
    have hlength : (R.state s).calls.frames.length = s.calls.frames.length := List.length_map _
    rw [if_neg (by omega)]
    rfl
  · rfl

/-- A call that is refused overflows the stack, and is refused after an exact recasting too. -/
theorem push_error {s : State} {frame : CallFrame} {fault : Fault}
    (h : s.calls.push frame = .error fault) : (∃ n, fault = .stackOverflow n) ∧
      (¬R.lossy → (R.state s).calls.push (frame.mapSpans R.span) = .error fault) := by
  unfold CallStack.push at h
  split at h
  · next n hn =>
    split at h
    · next hle =>
      obtain rfl := (Except.error.inj h).symm
      refine ⟨⟨n, rfl⟩, fun hexact => ?_⟩
      have hlimit : (R.state s).calls.limit = some n := (R.exact hexact _).trans hn
      have hlength : (R.state s).calls.frames.length = s.calls.frames.length := List.length_map _
      unfold CallStack.push
      rw [hlimit]
      exact if_pos (hlength ▸ hle)
    · exact nomatch h
  · exact nomatch h

namespace Agrees

variable {Q : α → Prop} {g : α → β} {b : EStateM.Result Stop State β}

theorem ok {a : α} {t : State} (h : R.Agrees Q g (.ok a t) b) :
    t.env.Nested ∧ Q a ∧ b = .ok (g a) (R.state t) :=
  ⟨h.1.1, h.1.2, h.2.resolve_right fun hover => Run.not_overflowed_ok a t hover.2⟩

theorem outOfFuel {t : State} (h : R.Agrees Q g (.error .outOfFuel t) b) :
    t.env.Nested ∧ b = .error .outOfFuel (R.state t) :=
  ⟨h.1, h.2.resolve_right fun hover => Run.overflowed_error.mp hover.2⟩

/-- The two ways in which an error can be carried over. -/
theorem error_iff {e : Stop} {t : State} : R.Agrees Q g (.error e t) b ↔
    t.env.Nested ∧ (b = .error (R.stop e) (R.state t) ∨ R.lossy ∧ e.Overflows) := by
  unfold Agrees
  rw [Run.overflowed_error]
  rfl

theorem error {e : Stop} {t : State} (h : R.Agrees Q g (.error e t) b) :
    t.env.Nested ∧ (b = .error (R.stop e) (R.state t) ∨ R.lossy ∧ e.Overflows) := error_iff.mp h

theorem of_error {e : Stop} {t : State} (ht : t.env.Nested)
    (h : b = .error (R.stop e) (R.state t) ∨ R.lossy ∧ e.Overflows) :
    R.Agrees Q g (.error e t) b := error_iff.mpr ⟨ht, h⟩

end Agrees

namespace Carries

variable {Q : α → Prop} {g : α → β} {x : Run α} {y : Run β} {P : γ → Prop} {k : γ → δ}

/-- Runs of which it is known how they end. -/
theorem of_eq (h : ∀ s : State, s.env.Nested → Ends Q (x s) ∧ y (R.state s) = R.result g (x s)) :
    R.Carries Q g x y :=
  fun s hs => ⟨(h s hs).1, .inl (h s hs).2⟩

theorem pure {a : α} {b : β} (hb : b = g a) (ha : Q a) :
    R.Carries Q g (Pure.pure a) (Pure.pure b) := by
  subst hb
  exact of_eq fun s hs => ⟨⟨hs, ha⟩, rfl⟩

theorem fail (fault : Fault) : R.Carries Q g (Run.fail fault) (Run.fail fault) :=
  of_eq fun _ hs => ⟨hs, rfl⟩

theorem stop (e : Report) : R.Carries Q g (Run.stop e) (Run.stop (e.mapSpans R.span)) :=
  of_eq fun _ hs => ⟨hs, rfl⟩

theorem exhausted : R.Carries Q g Run.exhausted Run.exhausted := of_eq fun _ hs => ⟨hs, rfl⟩

theorem read {p : State → α} {q : State → β}
    (h : ∀ s : State, s.env.Nested → q (R.state s) = g (p s) ∧ Q (p s)) :
    R.Carries Q g (Run.read p) (Run.read q) := by
  refine of_eq fun s hs => ⟨⟨hs, (h s hs).2⟩, ?_⟩
  exact congrArg (EStateM.Result.ok · _) (h s hs).1

theorem require (fault : Fault) {a : Option α} {b : Option β} (hb : b = a.map g)
    (ha : ∀ v ∈ a, Q v) : R.Carries Q g (Run.require fault a) (Run.require fault b) := by
  subst hb
  cases a with
  | none => exact fail fault
  | some a => exact pure rfl (ha a rfl)

theorem bind {u : α → Run γ} {v : β → Run δ} (hx : R.Carries Q g x y)
    (hu : ∀ a, Q a → R.Carries P k (u a) (v (g a))) :
    R.Carries P k (x >>= u) (y >>= v) := by
  intro s hs
  have h := hx s hs
  cases hrun : x s with
  | ok a t =>
    rw [hrun] at h
    obtain ⟨ht, ha, hy⟩ := h.ok
    rw [Run.bind_ok hrun, Run.bind_ok hy]
    exact hu a ha t ht
  | error e t =>
    rw [hrun] at h
    obtain ⟨ht, hy⟩ := h.error
    rw [Run.bind_error hrun]
    exact .of_error ht (hy.imp (fun hy => Run.bind_error hy v) id)

theorem ite {c c' : Prop} [Decidable c] [Decidable c'] {x' : Run α} {y' : Run β} (hc : c' ↔ c)
    (h : c → R.Carries Q g x y) (h' : ¬c → R.Carries Q g x' y') :
    R.Carries Q g (if c then x else x') (if c' then y else y') := by
  by_cases hif : c
  · rw [if_pos hif, if_pos (hc.mpr hif)]
    exact h hif
  · rw [if_neg hif, if_neg (mt hc.mp hif)]
    exact h' hif

/-- A test before a run. -/
theorem guarded {c c' : Prop} [Decidable c] [Decidable c'] (hc : c' ↔ c) {fault : Fault}
    {u : Unit → Run α} {v : Unit → Run β} (h : R.Carries Q g x y) :
    R.Carries Q g (if c then Run.fail fault >>= u else x)
      (if c' then Run.fail fault >>= v else y) :=
  ite hc (fun _ => of_eq fun _ hs => ⟨hs, rfl⟩) fun _ => h

theorem mapReport {r r' : Report → Report}
    (hr : ∀ e, r' (e.mapSpans R.span) = (r e).mapSpans R.span)
    (hfault : ∀ e, (r e).fault = e.fault) (h : R.Carries Q g x y) :
    R.Carries Q g (Run.mapReport r x) (Run.mapReport r' y) := by
  intro s hs
  replace h := h s hs
  unfold Run.mapReport
  cases hrun : x s with
  | ok a t =>
    rw [hrun] at h
    obtain ⟨ht, ha, hy⟩ := h.ok
    exact ⟨⟨ht, ha⟩, .inl (by rw [hy]; rfl)⟩
  | error e t =>
    rw [hrun] at h
    obtain ⟨ht, hy⟩ := h.error
    refine .of_error ht (hy.imp (fun hy => ?_) fun ho => ⟨ho.1, ho.2.mapReport hfault⟩)
    rw [hy]
    cases e with
    | outOfFuel => rfl
    | error e => exact congrArg (fun e => EStateM.Result.error (Stop.error e) _) (hr e)

theorem atSpan (span : Span) (h : R.Carries Q g x y) :
    R.Carries Q g (Run.atSpan span x) (Run.atSpan (R.span span) y) :=
  h.mapReport (fun e => (e.orSpan_mapSpans span).symm) fun _ => rfl

theorem traced (what : String) (span : Span) (h : R.Carries Q g x y) :
    R.Carries Q g (Run.traced what span x) (Run.traced what (R.span span) y) :=
  h.mapReport (fun e => (e.traced_mapSpans what span).symm) fun _ => rfl

/-- What goes on after an error must let an overflow pass. -/
theorem either {u : α → Run γ} {v : β → Run δ} {z : Report → Run γ} {z' : Report → Run δ}
    (hx : R.Carries Q g x y) (hu : ∀ a, Q a → R.Carries P k (u a) (v (g a)))
    (hz : ∀ e, R.Carries P k (z e) (z' (e.mapSpans R.span)))
    (hover : ∀ e n, e.fault = .stackOverflow n → z e = Run.stop e) :
    R.Carries P k (Run.either x u z) (Run.either y v z') := by
  intro s hs
  have h := hx s hs
  unfold Run.either
  cases hrun : x s with
  | ok a t =>
    rw [hrun] at h
    obtain ⟨ht, ha, hy⟩ := h.ok
    rw [hy]
    exact hu a ha t ht
  | error e t =>
    rw [hrun] at h
    cases e with
    | outOfFuel =>
      obtain ⟨ht, hy⟩ := h.outOfFuel
      rw [hy]
      exact ⟨ht, .inl rfl⟩
    | error e =>
      obtain ⟨ht, hy | ⟨hlossy, n, hn⟩⟩ := h.error
      · rw [hy]
        exact hz e t ht
      · have hstop : z e t = .error (.error e) t := congrFun (hover e n hn) t
        simp only [hstop]
        exact .of_error ht (.inr ⟨hlossy, n, hn⟩)

theorem mapM {u : γ → Run α} {v : δ → Run β} (h : ∀ c, R.Maps g (u c) (v (k c))) (cs : List γ) :
    R.Maps (List.map g) (cs.mapM u) ((cs.map k).mapM v) := by
  induction cs with
  | nil => exact pure rfl trivial
  | cons c cs ih =>
    rw [List.map_cons, List.mapM_cons, List.mapM_cons]
    exact (h c).bind fun a _ => ih.bind fun as _ => pure rfl trivial

/-- A run between two changes of the state, of which the second undoes the first. -/
theorem leaving {s s' : State} {restore : State → State} (h : R.Carries Q g x y)
    (hs : s.env.Nested) (hs' : s' = R.state s)
    (hrestore : ∀ t : State, t.env.Nested →
      (restore t).env.Nested ∧ restore (R.state t) = R.state (restore t)) :
    R.Agrees Q g (Run.leaving restore x s) (Run.leaving restore y s') := by
  subst hs'
  replace h := h s hs
  unfold Run.leaving
  cases hrun : x s with
  | ok a t =>
    rw [hrun] at h
    obtain ⟨ht, ha, hy⟩ := h.ok
    refine ⟨⟨(hrestore t ht).1, ha⟩, .inl ?_⟩
    rw [hy]
    exact congrArg (EStateM.Result.ok (g a)) (hrestore t ht).2
  | error e t =>
    rw [hrun] at h
    obtain ⟨ht, hy⟩ := h.error
    refine .of_error (hrestore t ht).1 (hy.imp (fun hy => ?_) id)
    rw [hy]
    exact congrArg (EStateM.Result.error (R.stop e)) (hrestore t ht).2

/-- Below a path outwards through scopes that exist. -/
theorem enter {path : ScopePath} (h : R.Carries Q g x y) {s : State} (hs : s.env.Nested)
    (hpath : ScopePath.Outward path) (hexist : ∀ id ∈ path, id.index < s.env.scopes.size) :
    R.Agrees Q g (Run.inScopeBelow path x s) (Run.inScopeBelow path y (R.state s)) :=
  h.leaving (hs.pushBelow hpath hexist) (state_pushBelow s path).symm fun _ ht => ⟨ht.pop, rfl⟩

theorem inScope (h : R.Carries Q g x y) : R.Carries Q g (Run.inScope x) (Run.inScope y) :=
  fun _ hs => h.enter hs hs.current.1 hs.current.2

theorem inLiveScope {path : ScopePath} (hpath : ScopePath.Outward path)
    (h : R.Carries Q g x y) : R.Carries Q g (Run.inLiveScope path x) (Run.inLiveScope path y) := by
  intro s hs
  unfold Run.inLiveScope
  have hlive : (R.state s).env.isLive path = s.env.isLive path := rfl
  rw [hlive]
  cases hif : s.env.isLive path with
  | true => exact h.enter hs hpath (hs.exist_of_head hpath hif)
  | false => exact fail .noActiveScope s hs

theorem returning (t : Ty) (h : R.Carries Q g x y) :
    R.Carries Q g (Run.returning t x) (Run.returning t y) := by
  intro s hs
  exact h.leaving (s := { s with returns := t :: s.returns }) hs rfl fun _ ht => ⟨ht, rfl⟩

/-- A call that overflows the stack does so with the same report, unless that is not taken
account of. -/
theorem asCall (frame : CallFrame) (h : R.Carries Q g x y) :
    R.Carries Q g (Run.asCall frame x) (Run.asCall (frame.mapSpans R.span) y) := by
  intro s hs
  unfold Run.asCall
  cases hpush : s.calls.push frame with
  | error fault =>
    obtain ⟨hover, hsame⟩ := push_error (R := R) hpush
    refine .of_error hs ?_
    by_cases hlossy : R.lossy
    · exact .inr ⟨hlossy, hover⟩
    · rw [hsame hlossy]
      exact .inl rfl
  | ok calls =>
    rw [push_ok (R := R) hpush]
    dsimp only
    replace h : R.Agrees Q g _ (y { R.state s with calls := (R.state { s with calls }).calls }) :=
      h { s with calls } hs
    cases hrun : x { s with calls } with
    | ok a t =>
      rw [hrun] at h
      obtain ⟨ht, ha, hy⟩ := h.ok
      rw [hy]
      exact ⟨⟨ht, ha⟩, .inl (congrArg (EStateM.Result.ok (g a)) (state_popCall t).symm)⟩
    | error e t =>
      rw [hrun] at h
      obtain ⟨ht, hy⟩ := h.error
      refine .of_error ht (hy.imp (fun hy => ?_) fun ho =>
        ⟨ho.1, ho.2.mapReport fun e => e.withBacktrace_fault t.calls.frames⟩)
      rw [hy]
      cases e with
      | outOfFuel => exact congrArg (EStateM.Result.error Stop.outOfFuel) (state_popCall t).symm
      | error e =>
        show EStateM.Result.error _ _ = EStateM.Result.error _ _
        rw [← state_popCall]
        refine congrArg (fun e => EStateM.Result.error (Stop.error e) _) ?_
        exact (e.withBacktrace_mapSpans t.calls.frames).symm

end Carries

end Recast

end BasicScript
