import BasicScript.Proofs.Frame.Expression

/-! # Properties that the rules keep

A property of paths lasts if it outlives all that the rules do: what changes
no declaration, the opening of scopes, and declarations. Runs are compared in
pairs that do the same wherever the property holds of the current path. So it
holds wherever a rule starts, and not only where a program ends.
-/

namespace BasicScript

/-- A property that outlives what changes no declaration, holds below a path of which it holds and
of the scope of whatever is found along such a path, and is kept by declarations. -/
structure Environment.Lasting (P : Environment → ScopePath → Prop) : Prop where
  stays : ∀ {s t : State} {path : ScopePath}, Frame False s t → P s.env path → P t.env path
  opens : ∀ {env : Environment} {path : ScopePath}, P env path →
    P (env.pushBelow path) (⟨env.scopes.size⟩ :: path)
  subScope : ∀ {env : Environment} {name : String} {sub : Sub}, P env env.current →
    sub ∈ env.overloads name → P env sub.scope
  dataScope : ∀ {env : Environment} {name : String} {d : DataDecl}, P env env.current →
    env.data? name = some d → P env d.scope
  addVariable : ∀ {env : Environment} (name : String) (cell : CellId), P env env.current →
    P (env.addVariable name cell) env.current
  addEnum : ∀ {env : Environment} (d : EnumDecl), P env env.current →
    P (env.addEnum d) env.current
  declareSub : ∀ {r : Evaluator} {s t : State} {d : SubDef}, r.Precedes none False r →
    (r.declareSub d).state s = t → P s.env s.env.current → P t.env t.env.current
  declareData : ∀ {r : Evaluator} {s t : State} {name : String} {fields : List FieldDef},
    r.Precedes none False r → (r.declareData name fields).state s = t →
      P s.env s.env.current → P t.env t.env.current
  declareAlias : ∀ {r : Evaluator} {s t : State} {name : String} {written : TypeExpr},
    r.Precedes none False r → (r.declareAlias name written).state s = t →
      P s.env s.env.current → P t.env t.env.current

section Abides

variable {P : Environment → ScopePath → Prop} {paths more : List ScopePath} {s t : State}

/-- The property holds of the current path, and of some others. -/
def State.Along (P : Environment → ScopePath → Prop) (paths : List ScopePath) (s : State) : Prop :=
  ∀ path ∈ s.env.current :: paths, P s.env path

namespace State.Along

theorem current (h : s.Along P paths) : P s.env s.env.current := h _ List.mem_cons_self

theorem of_current (h : P s.env s.env.current) : s.Along P [] :=
  List.forall_mem_cons.mpr ⟨h, fun _ hpath => nomatch hpath⟩

/-- Scopes are all that matters. -/
theorem of_env (henv : t.env = s.env) (h : s.Along P paths) : t.Along P paths := by
  rw [Along, henv]
  exact h

theorem stays (hP : Environment.Lasting P) (hframe : Frame False s t) (h : s.Along P paths) :
    t.Along P paths := by
  intro path hpath
  rw [hframe.current] at hpath
  exact hP.stays hframe (h path hpath)

theorem pushBelow (hP : Environment.Lasting P) {path : ScopePath} (hpath : P s.env path) :
    ({ s with env := s.env.pushBelow path } : State).Along P [] :=
  of_current (hP.opens hpath)

end State.Along

namespace Run

variable {α β : Type}

/-- From states with the property on their current path, and on some others, the two runs do the
same, and the property stays. -/
def Abides (P : Environment → ScopePath → Prop) (paths : List ScopePath) (x y : Run α) : Prop :=
  ∀ s : State, s.Along P paths → x s = y s ∧ (x.state s).Along P paths

namespace Abides

variable {x y : Run α} {f g : α → Run β} {o : Prop}

/-- What is done in closed frames keeps the property. -/
theorem closed (hP : Environment.Lasting P) (hsame : ∀ s : State, s.Along P paths → x s = y s)
    (hx : Tracks none False False x x) : Abides P paths x y :=
  fun s hs => ⟨hsame s hs, hs.stays hP (hx.frame s)⟩

theorem still (h : ∀ s, x.state s = s) : Abides P paths x x :=
  fun s hs => ⟨rfl, (h s).symm ▸ hs⟩

theorem pure (a : α) : Abides P paths (Pure.pure a : Run α) (Pure.pure a) := still fun _ => rfl

theorem fail (f : Fault) : Abides P paths (Run.fail f : Run α) (Run.fail f) := still fun _ => rfl

theorem stop (e : Report) : Abides P paths (Run.stop e : Run α) (Run.stop e) := still fun _ => rfl

theorem exhausted : Abides P paths (Run.exhausted : Run α) Run.exhausted := still fun _ => rfl

theorem read (f : State → α) : Abides P paths (Run.read f) (Run.read f) := still fun _ => rfl

theorem require (f : Fault) (found : Option α) :
    Abides P paths (Run.require f found) (Run.require f found) := by
  cases found
  · exact fail f
  · exact pure _

/-- The continuation goes on from results that the first run has. -/
theorem bind_of (hx : Abides P paths x y)
    (hf : ∀ s a t, x s = .ok a t → Abides P paths (f a) (g a)) :
    Abides P paths (x >>= f) (y >>= g) := by
  intro s hs
  obtain ⟨hsame, hkeeps⟩ := hx s hs
  cases hrun : x s with
  | ok a t =>
    rw [state_ok hrun] at hkeeps
    rw [bind_ok hrun, bind_ok (hsame ▸ hrun), state_bind_ok hrun]
    exact hf s a t hrun t hkeeps
  | error e t =>
    rw [state_error hrun] at hkeeps
    have herror := bind_error hrun f
    rw [herror, bind_error (hsame ▸ hrun), state_error herror]
    exact ⟨rfl, hkeeps⟩

theorem bind (hx : Abides P paths x y) (hf : ∀ a, Abides P paths (f a) (g a)) :
    Abides P paths (x >>= f) (y >>= g) :=
  hx.bind_of fun _ a _ _ => hf a

theorem bind_require {fault : Fault} {found : Option α}
    (hf : ∀ a ∈ found, Abides P paths (f a) (g a)) :
    Abides P paths (Run.require fault found >>= f) (Run.require fault found >>= g) := by
  cases found with
  | none => exact (fail fault).bind_of fun _ _ _ hrun => nomatch hrun
  | some a =>
    intro s hs
    exact hf a rfl s hs

/-- A reading of the state, with which other paths come into play. -/
theorem bind_read {z : Run α} (hz : ∀ s : State, s.Along P paths →
      (∃ e, z s = .error e s) ∨ ∃ a more, z s = .ok a s ∧ (∀ path ∈ more, P s.env path) ∧
        Abides P (more ++ paths) (f a) (g a)) :
    Abides P paths (z >>= f) (z >>= g) := by
  intro s hs
  rcases hz s hs with ⟨e, hrun⟩ | ⟨a, more, hrun, hmore, hf⟩
  · have herror := bind_error hrun f
    rw [herror, bind_error hrun, state_error herror]
    exact ⟨rfl, hs⟩
  · rw [bind_ok hrun, bind_ok hrun, state_bind_ok hrun]
    have hwider : s.Along P (more ++ paths) := by
      rw [State.Along, List.forall_mem_cons, List.forall_mem_append]
      exact ⟨hs.current, hmore, fun path hpath => hs path (List.mem_cons_of_mem _ hpath)⟩
    obtain ⟨hsame, hkeeps⟩ := hf s hwider
    refine ⟨hsame, fun path hpath => hkeeps path ?_⟩
    exact List.cons_subset_cons _ (List.subset_append_right _ _) hpath

theorem ite {p : Prop} [Decidable p] {x' y' : Run α} (h : Abides P paths x y)
    (h' : Abides P paths x' y') :
    Abides P paths (if p then x else x') (if p then y else y') := by
  split
  · exact h
  · exact h'

theorem mapReport (change : Report → Report) (h : Abides P paths x y) :
    Abides P paths (Run.mapReport change x) (Run.mapReport change y) := by
  intro s hs
  obtain ⟨hsame, hkeeps⟩ := h s hs
  have hstate : (Run.mapReport change x).state s = x.state s := by
    simp only [Run.mapReport, state]
    cases x s <;> rfl
  rw [hstate]
  exact ⟨by simp only [Run.mapReport, hsame], hkeeps⟩

theorem atSpan (span : Span) (h : Abides P paths x y) :
    Abides P paths (Run.atSpan span x) (Run.atSpan span y) := h.mapReport _

theorem traced (what : String) (span : Span) (h : Abides P paths x y) :
    Abides P paths (Run.traced what span x) (Run.traced what span y) := h.mapReport _

theorem either {z z' : Report → Run β} (hx : Abides P paths x y)
    (hf : ∀ a, Abides P paths (f a) (g a)) (hz : ∀ e, Abides P paths (z e) (z' e)) :
    Abides P paths (Run.either x f z) (Run.either y g z') := by
  intro s hs
  obtain ⟨hsame, hkeeps⟩ := hx s hs
  -- whichever way the first run goes on, the second goes on in the same way
  have hnext : ∀ (t : State) (u v : Run β), x.state s = t → Run.either x f z s = u t →
      Run.either y g z' s = v t → Abides P paths u v →
      Run.either x f z s = Run.either y g z' s ∧
        ((Run.either x f z).state s).Along P paths := by
    rintro t u v rfl hleft hright h
    have hstate : (Run.either x f z).state s = u.state (x.state s) := by
      simp only [state, hleft]
    rw [hleft, hright, hstate]
    exact h _ hkeeps
  cases hrun : x s with
  | ok a t =>
    have hrun' : y s = .ok a t := hsame ▸ hrun
    exact hnext t (f a) (g a) (state_ok hrun) (by simp only [Run.either, hrun])
      (by simp only [Run.either, hrun']) (hf a)
  | error e t =>
    have hrun' : y s = .error e t := hsame ▸ hrun
    cases e with
    | error e =>
      exact hnext t (z e) (z' e) (state_error hrun) (by simp only [Run.either, hrun])
        (by simp only [Run.either, hrun']) (hz e)
    | outOfFuel =>
      exact hnext t Run.exhausted Run.exhausted (state_error hrun)
        (by simp only [Run.either, hrun]; rfl) (by simp only [Run.either, hrun']; rfl) exhausted

theorem mapM {γ : Type} {x y : γ → Run α} (h : ∀ a, Abides P paths (x a) (y a)) (as : List γ) :
    Abides P paths (as.mapM x) (as.mapM y) := by
  induction as with
  | nil => exact pure []
  | cons a as ih =>
    rw [List.mapM_cons, List.mapM_cons]
    exact (h a).bind fun _ => ih.bind fun _ => pure _

theorem loop {x y : Run LoopStep} (h : Abides P paths x y) (rounds : Nat) :
    Abides P paths (Run.loop x rounds) (Run.loop y rounds) := by
  induction rounds with
  | zero => exact exhausted
  | succ rounds ih =>
    refine h.bind fun step => ?_
    cases step
    · exact ih
    · exact pure _
    · exact pure _

theorem forValues {x y : Value → Run LoopStep} (h : ∀ v, Abides P paths (x v) (y v))
    (vs : List Value) : Abides P paths (Run.forValues x vs) (Run.forValues y vs) := by
  induction vs with
  | nil => exact pure _
  | cons v vs ih =>
    refine (h v).bind fun step => ?_
    cases step
    · exact ih
    · exact pure _
    · exact pure _

theorem inScopeBelow (hP : Environment.Lasting P) (h : Abides P [] x y) {path : ScopePath}
    (hpath : P s.env path) :
    Run.inScopeBelow path x s = Run.inScopeBelow path y s := by
  have hsame := (h { s with env := s.env.pushBelow path } (.pushBelow hP hpath)).1
  simp only [Run.inScopeBelow, leaving, hsame]

theorem inScope (hP : Environment.Lasting P) (h : Abides P [] x y)
    (hx : Tracks none False o x x) : Abides P paths (Run.inScope x) (Run.inScope y) :=
  closed hP (fun _ hs => h.inScopeBelow hP hs.current) hx.inScope

theorem inLiveScope (hP : Environment.Lasting P) (h : Abides P [] x y)
    (hx : Tracks none False o x x) {path : ScopePath} (hpath : path ∈ paths) :
    Abides P paths (Run.inLiveScope path x) (Run.inLiveScope path y) := by
  refine closed hP (fun s hs => ?_) (hx.inLiveScope path)
  unfold Run.inLiveScope
  split
  · exact h.inScopeBelow hP (hs path (List.mem_cons_of_mem _ hpath))
  · rfl

theorem returning (type : Ty) (h : Abides P paths x y) :
    Abides P paths (Run.returning type x) (Run.returning type y) := by
  intro s hs
  obtain ⟨hsame, hkeeps⟩ := h { s with returns := type :: s.returns } (hs.of_env rfl)
  have hstate : (Run.returning type x).state s =
      Run.popReturns (x.state { s with returns := type :: s.returns }) := by
    simp only [state, Run.returning, leaving]
    cases x { s with returns := type :: s.returns } <;> rfl
  rw [hstate]
  exact ⟨by simp only [Run.returning, leaving, hsame], hkeeps.of_env rfl⟩

theorem asCall (frame : CallFrame) (h : Abides P paths x y) :
    Abides P paths (Run.asCall frame x) (Run.asCall frame y) := by
  intro s hs
  cases hpush : s.calls.push frame with
  | error f =>
    have hrun : ∀ z : Run α, Run.asCall frame z s =
        .error (.error ((Report.ofFault f).orSpan frame.span)) s := by
      intro z
      simp only [Run.asCall, hpush]
    rw [state_error (hrun x), hrun, hrun]
    exact ⟨rfl, hs⟩
  | ok calls =>
    obtain ⟨hsame, hkeeps⟩ := h { s with calls := calls } (hs.of_env rfl)
    have hstate : (Run.asCall frame x).state s =
        Run.popCall (x.state { s with calls := calls }) := by
      simp only [state, Run.asCall, hpush]
      cases x { s with calls := calls } <;> rfl
    rw [hstate]
    exact ⟨by simp only [Run.asCall, hpush, hsame], hkeeps.of_env rfl⟩

theorem declareVariable (hP : Environment.Lasting P) (name : String) (cell : Cell) :
    Abides P [] (Run.declareVariable name cell) (Run.declareVariable name cell) := by
  intro s hs
  refine ⟨rfl, ?_⟩
  rcases declareVariable_cases name cell s with ⟨-, hrun⟩ | ⟨f, hrun⟩
  · rw [state_ok hrun]
    exact .of_current (hP.addVariable name _ hs.current)
  · rw [state_error hrun]
    exact hs

theorem declareEnum (hP : Environment.Lasting P) (name : String) (d : EnumDecl) :
    Abides P [] (Run.declare .enum name (·.takesEnum name) (·.addEnum d))
      (Run.declare .enum name (·.takesEnum name) (·.addEnum d)) := by
  intro s hs
  refine ⟨rfl, ?_⟩
  rcases declare_cases .enum name (·.takesEnum name) (·.addEnum d) s with ⟨-, hrun⟩ | ⟨f, hrun⟩
  · rw [state_ok hrun]
    exact .of_current (hP.addEnum d hs.current)
  · rw [state_error hrun]
    exact hs

end Abides

/-- From states with the property on their current path the two runs do the same. -/
def Agrees (P : Environment → ScopePath → Prop) (x y : Run α) : Prop :=
  ∀ s : State, s.Along P [] → x s = y s

theorem Abides.agrees_bind {x y : Run α} {f g : α → Run β} (hx : Abides P [] x y)
    (hf : ∀ a, Agrees P (f a) (g a)) : Agrees P (x >>= f) (y >>= g) := by
  intro s hs
  obtain ⟨hsame, hkeeps⟩ := hx s hs
  cases hrun : x s with
  | ok a t =>
    rw [state_ok hrun] at hkeeps
    rw [bind_ok hrun, bind_ok (hsame ▸ hrun)]
    exact hf a t hkeeps
  | error e t => rw [bind_error hrun, bind_error (hsame ▸ hrun)]

end Run

end Abides

end BasicScript
