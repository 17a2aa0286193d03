import BasicScript.Proofs.Law.Scopes
import BasicScript.Proofs.Types.Storage

/-! # Lexical scoping of calls

The body of a sub runs below the scope that declares the sub. Below it on the
stack is whatever was active at the call, and by the law of stacks with two
bottoms nothing depends on that: a call is blind to the scopes of its caller.
-/

namespace BasicScript

/-- The state on another stack of scopes. -/
def State.onStack (s : State) (stack : List ScopePath) : State :=
  { s with env := { s.env with active := stack } }

/-- Other scopes may be active, if they are among those that exist. -/
theorem State.Amid.onStack {settings : Settings} {s : State} (h : s.Amid settings)
    {stack : List ScopePath} (hstack : ∀ path ∈ stack,
      ScopePath.Outward path ∧ ∀ id ∈ path, id.index < s.env.scopes.size) :
    (s.onStack stack).Amid settings where
  reached := h.reached
  nested := ⟨h.nested.global, hstack, h.nested.subs, h.nested.datas⟩

/-- The same outcome on another stack of scopes. -/
def Run.resultOn {α : Type} (stack : List ScopePath) :
    EStateM.Result Stop State α → EStateM.Result Stop State α
  | .ok a s => .ok a (s.onStack stack)
  | .error e s => .error e (s.onStack stack)

/-- A run from a state has the same outcome on either of two stacks. -/
def Run.BlindTo {α : Type} (a b : List ScopePath) (x : Run α) (s : State) : Prop :=
  x (s.onStack b) = resultOn b (x (s.onStack a))

/-- The law of all programs on two stacks with different bottoms. -/
def Law.overStacks (a b : List ScopePath) : Law Unit :=
  { Grammar.all.law True with below := a, instead := b }

instance (a b : List ScopePath) : (Law.overStacks a b).along.NeBot :=
  inferInstanceAs (⊤ : Filter Unit).NeBot

namespace Run.BlindTo

variable {α : Type} {a b : List ScopePath} {x y : Run α} {s : State}

theorem of_local (h : x.Local True) : x.BlindTo a b s := by
  obtain ⟨σ, κ, ⟨v, hv⟩ | ⟨e, -, he⟩ | ⟨-, he⟩⟩ := h s.store s.console
  · exact (hv (s.onStack b)).trans (congrArg (resultOn b) (hv (s.onStack a)).symm)
  · exact (he (s.onStack b)).trans (congrArg (resultOn b) (he (s.onStack a)).symm)
  · exact (he (s.onStack b)).trans (congrArg (resultOn b) (he (s.onStack a)).symm)

theorem ite {c : Prop} [Decidable c] (hx : c → x.BlindTo a b s) (hy : ¬c → y.BlindTo a b s) :
    (if c then x else y : Run α).BlindTo a b s := by
  by_cases hc : c
  · simp only [hc, if_true]
    exact hx hc
  · simp only [hc, if_false]
    exact hy hc

/-- The stack of calls is no part of the stack of scopes. -/
theorem asCall {frame : CallFrame} (h : ∀ calls, x.BlindTo a b { s with calls := calls }) :
    (Run.asCall frame x).BlindTo a b s := by
  have hcalls : (s.onStack b).calls = (s.onStack a).calls := rfl
  unfold BlindTo Run.asCall
  rw [hcalls]
  cases (s.onStack a).calls.push frame with
  | error f => rfl
  | ok calls =>
    have hx : x { s.onStack b with calls := calls } =
        resultOn b (x { s.onStack a with calls := calls }) := h calls
    simp only [hx]
    cases x { s.onStack a with calls := calls } <;> rfl

/-- In a fresh scope below a path the bottom of the stack makes no difference. -/
theorem inScopeBelow (path : ScopePath) (hs : s.Obeys .all)
    (h : ∀ p, (Law.overStacks a b).Runs none p fun _ => x) :
    (Run.inScopeBelow path x).BlindTo a b s := by
  let p : Site := ⟨[⟨s.env.scopes.size⟩ :: path], s.calls⟩
  let entered : State := { s with env := (s.onStack a).env.pushBelow path }
  have hinv : (Law.overStacks a b).Inv none p entered :=
    ⟨rfl, fun hp => (nomatch hp), hs.pushBelow path, rfl, fun _ hk => nomatch hk⟩
  obtain ⟨hgood, htwin⟩ := (h p).outcome hinv
  have hb : x { s with env := (s.onStack b).env.pushBelow path } =
      (Law.overStacks a b).twinResult p (x entered) := htwin
  unfold BlindTo Run.inScopeBelow Run.leaving
  show (match x { s with env := (s.onStack b).env.pushBelow path } with
    | .ok v t => .ok v (popScope t)
    | .error e t => .error e (popScope t)) = resultOn b (match x entered with
    | .ok v t => .ok v (popScope t)
    | .error e t => .error e (popScope t))
  rw [hb]
  cases x entered <;> rfl

theorem inLiveScope {path : ScopePath}
    (hlive : (s.onStack a).env.isLive path = (s.onStack b).env.isLive path)
    (h : (Run.inScopeBelow path x).BlindTo a b s) : (Run.inLiveScope path x).BlindTo a b s := by
  unfold BlindTo Run.inLiveScope
  rw [← hlive]
  by_cases hl : (s.onStack a).env.isLive path = true
  · simp only [hl, if_true]
    exact h
  · simp only [hl]
    rfl

end Run.BlindTo

/-- A call is blind to any change of the stack that leaves it open whether the scope of the sub can
still be reached; native subs need no scope. -/
theorem Evaluator.callSub_blind {s : State} (hs : s.Obeys .all) (fuel : Nat) (sub : Sub)
    (bound : List Value) (span : Span) {a b : List ScopePath}
    (hlive : sub.native = false →
      (s.onStack a).env.isLive sub.scope = (s.onStack b).env.isLive sub.scope) :
    ((ofFuel .standard fuel).callSub sub bound span).BlindTo a b s := by
  have huniform : (Law.overStacks a b).Uniform fun _ => ofFuel .standard fuel :=
    ofFuel_uniform trivial trivial fuel
  refine .asCall fun calls => .ite (fun _ => ?_) fun hnative => ?_
  · obtain ⟨x, hx, hsame⟩ := callNative_local sub bound
    rw [hsame _ (ofFuel_library .standard fuel)]
    exact .of_local hx
  · refine .inLiveScope (hlive (Bool.eq_false_of_not_eq_true hnative)) ?_
    exact .inScopeBelow sub.scope hs fun p =>
      Law.enteredBody sub bound (huniform.defaults sub.returns) fun q =>
        huniform.block (fun _ _ => trivial) fun _ _ _ _ _ => .inl trivial

/-- At every moment of the runs of programs, what has been declared stays in its scope. -/
theorem State.Amid.obeys {settings : Settings} {s : State} (h : s.Amid settings) :
    s.Obeys .all := by
  obtain ⟨u, hu, -, hscopes⟩ := h.reached
  intro i sc hsc
  rw [hscopes] at hsc
  exact hu.obeys i sc hsc

theorem State.Obeys.sub_live {s : State} (h : s.Obeys .all) {name : String} {sub : Sub}
    (hsub : sub ∈ s.env.overloads name) : s.env.isLive sub.scope = true := by
  have hinv : (Grammar.all.law True).Inv none s.site s := h.inv
  obtain ⟨⟨-, hfound⟩, -⟩ := (Law.Holds.overloads name).outcome hinv
  exact (hinv.live (hfound sub hsub).2.2).1

/-- At every moment of the runs of programs, inside of whatever blocks and other calls, a call of an
overload with bound arguments comes out the same on any two stacks of scopes. States that differ in
nothing but the stack agree on whether the declaring scope is alive; here that is read off the
stack, and so it is asked of the two stacks. Of native subs nothing is asked, and whatever overload
a lookup finds on a stack is alive there. -/
theorem Evaluator.calls_lexical {settings : Settings} {s : State} (h : s.Amid settings)
    (fuel : Nat) :
    (∀ (sub : Sub) (bound : List Value) (span : Span) (a b : List ScopePath),
      (sub.native = false →
        (s.onStack a).env.isLive sub.scope = (s.onStack b).env.isLive sub.scope) →
      (ofFuel .standard fuel).callSub sub bound span (s.onStack b) =
        Run.resultOn b ((ofFuel .standard fuel).callSub sub bound span (s.onStack a))) ∧
    ∀ (stack : List ScopePath) (name : String), ∀ sub ∈ (s.onStack stack).env.overloads name,
      (s.onStack stack).env.isLive sub.scope = true := by
  refine ⟨fun sub bound span a b hlive => callSub_blind h.obeys fuel sub bound span hlive,
    fun stack name sub hsub => ?_⟩
  exact State.Obeys.sub_live (s := s.onStack stack) h.obeys hsub

/-- The program `var x as int = 1; sub f() as int { yield x }; { var x as int = 2 }`. -/
def shadowingBlock : List Stmt :=
  [.generated (.declare "x" (.prim .int) (.generated (.literal (.int 1))) false),
    .generated (.sub (.mk "f" [] (.prim .int)
      [.generated (.yield (.generated (.name "x")))] false)),
    .generated (.block
      [.generated (.declare "x" (.prim .int) (.generated (.literal (.int 2))) false)])]

/-- Whether a run ends with a whole number. -/
def Run.endsWithWhole (x : Run Value) (n : Int) (s : State) : Bool :=
  match x s with
  | .ok v _ => v.integral? == some n
  | .error _ _ => false

/-- Inside of a call of `g`, with room for one more call. -/
theorem calls_lexical_shadowingBlock :
    let s := ((Evaluator.interrupted .standard (fun _ => false) 6).run shadowingBlock).state
      (.initial ⟨false, none, true⟩)
    let t : State := { s with calls := ⟨[⟨"g()", .nowhere⟩], some 2⟩, returns := [.prim .bool] }
    let r := Evaluator.ofFuel .standard 6
    let inner : List ScopePath := [[⟨1⟩, ⟨0⟩]]
    t.Amid ⟨false, none, true⟩ ∧ t.env.overloads "f" ≠ [] ∧
      ∀ sub ∈ t.env.overloads "f",
        (r.callSub sub [] .nowhere).endsWithWhole 1 (t.onStack []) = true ∧
          (r.callSub sub [] .nowhere) (t.onStack inner) =
            Run.resultOn inner (r.callSub sub [] .nowhere (t.onStack [])) := by
  intro s t r inner
  have hs : Reaches .standard (.initial ⟨false, none, true⟩) s :=
    .run shadowingBlock (fun _ => false) 6 .refl
  have h : t.Amid ⟨false, none, true⟩ := ⟨⟨s, hs, rfl, rfl⟩, hs.amid.nested⟩
  have hchecked : (t.env.overloads "f" ≠ [] ∧ ∀ sub ∈ t.env.overloads "f",
      (r.callSub sub [] .nowhere).endsWithWhole 1 (t.onStack []) = true ∧
        (t.onStack []).env.isLive sub.scope = (t.onStack inner).env.isLive sub.scope) := by
    have hlist : ((t.env.overloads "f").length == 1 && (t.env.overloads "f").all fun sub =>
        (r.callSub sub [] .nowhere).endsWithWhole 1 (t.onStack []) &&
          ((t.onStack []).env.isLive sub.scope == (t.onStack inner).env.isLive sub.scope)) =
        true := by
      decide +kernel
    simp only [Bool.and_eq_true, List.all_eq_true, beq_iff_eq] at hlist
    exact ⟨List.ne_nil_of_length_eq_add_one hlist.1, hlist.2⟩
  refine ⟨h, hchecked.1, fun sub hsub => ⟨(hchecked.2 sub hsub).1, ?_⟩⟩
  exact (Evaluator.calls_lexical h 6).1 sub [] .nowhere [] inner fun _ => (hchecked.2 sub hsub).2

end BasicScript
