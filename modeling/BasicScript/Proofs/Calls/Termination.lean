import Mathlib.Order.Filter.AtTopBot.Basic
import BasicScript.Proofs.Calls.Ranking
import BasicScript.Proofs.Law.Scopes

/-! # Termination under a limit on calls

A founded program whose calls are limited ends with enough fuel: it does not
get to where the fuel ends. Only a view of a value that lies in itself may go
round. Calls are bounded by the room that is left, defaults by their rank, and
expressions and statements by their size. Without a ranking that fails: a
default that calls its own sub never meets the limit.
-/

namespace BasicScript

namespace Evaluator

/-- The rules nested `fuel` deep upon another evaluator. -/
def upon (base : Evaluator) : ℕ → Evaluator
  | 0 => base
  | fuel + 1 =>
    { library := base.library
      rounds := fuel
      eval := fun hint e => (base.upon fuel).expr hint e
      exec := fun s => (base.upon fuel).stmt s
      default := fun t => (base.upon fuel).defaultValue t
      invoke := fun name args => (base.upon fuel).callValues name args }

theorem upon_exhausted (library : Library) (fuel : ℕ) :
    (exhausted library).upon fuel = ofFuel library fuel := by
  induction fuel with
  | zero => rfl
  | succ fuel ih =>
    simp only [upon, ofFuel, ih]
    rfl

/-- Evaluators with the standard library, upon which rules can be nested. -/
abbrev Base := {base : Evaluator // base.library = .standard}

/-- The rules nested so deep upon a base. -/
def nested (i : ℕ × Base) : Evaluator := i.2.1.upon i.1

theorem nested_library (i : ℕ × Base) : (nested i).library = .standard := by
  obtain ⟨_ | n, base, h⟩ := i <;> exact h

end Evaluator

/-- The law of founded programs as rules nest deeper: their runs never get to the base, and stop
short only where some value lies in itself. -/
def Ranking.law (rk : Ranking) : Law (ℕ × Evaluator.Base) where
  toGrammar := rk.grammar
  along := Filter.atTop.comap Prod.fst
  exhausts := False
  strays := True
  below := []
  instead := []

namespace Ranking

variable {rk : Ranking} {room : Option Nat} {p : Site} {α : Type} {Q : α → Prop}

theorem eventually_iff {P : ℕ × Evaluator.Base → Prop} :
    (∀ᶠ i in rk.law.along, P i) ↔ ∃ fuel, ∀ n ≥ fuel, ∀ base, P (n, base) := by
  show (∀ᶠ i in Filter.atTop.comap Prod.fst, P i) ↔ _
  rw [Filter.eventually_comap, Filter.eventually_atTop]
  constructor
  · rintro ⟨fuel, h⟩
    exact ⟨fuel, fun n hn base => h n hn _ rfl⟩
  · rintro ⟨fuel, h⟩
    refine ⟨fuel, ?_⟩
    rintro _ hn ⟨n, base⟩ rfl
    exact h n hn base

/-- A run whose rules nest one deeper settles as well. -/
theorem next {x y : ℕ × Evaluator.Base → Run α} (h : rk.law.Holds room p x Q)
    (hy : ∀ n base, y (n + 1, base) = x (n, base)) : rk.law.Holds room p y Q := by
  intro s hs
  obtain ⟨outcome, hgood, hruns⟩ := h s hs
  refine ⟨outcome, hgood, ?_⟩
  rw [eventually_iff] at hruns ⊢
  obtain ⟨fuel, hfuel⟩ := hruns
  refine ⟨fuel + 1, fun n hn base => ?_⟩
  obtain ⟨m, rfl⟩ := Nat.exists_eq_add_of_le hn
  rw [Nat.add_right_comm, hy]
  exact hfuel (fuel + m) (Nat.le_add_right _ _) base

variable {bound : Option ℕ}

/-- Values of a type are made once instances of the data types in it are. -/
theorem makes (hbuilds : ∀ d, rk.law.data d → rk.Under bound (.type d.name) →
      rk.law.Builds .nested room d) {t : Ty} (ht : t.Below rk bound) :
    rk.law.Makes .nested room t := by
  have helement : ∀ element ∈ t.element?, rk.law.Defaults .nested room element := by
    intro element hmem
    match t, hmem with
    | .array element size, rfl | .vararg element, rfl =>
      exact (makes hbuilds (show element.Below rk bound from ht)).default
  have hdata : ∀ d, rk.law.data d → t = .data d.name →
      rk.law.Builds .nested room d := by
    rintro d hd rfl
    exact hbuilds d hd (ht d.name (List.mem_singleton_self _))
  exact ⟨fun p => next (Law.defaultValue t helement hdata) fun _ _ => rfl, helement, hdata⟩

/-- Expressions settle once the defaults do that they can ask for. -/
theorem evals (hbodies : rk.law.Bodies .nested room)
    (hfills : ∀ name, rk.Under bound (.sub name) → rk.law.Fills .nested room name)
    (hmakes : ∀ t, t.Below rk bound → rk.law.Makes .nested room t) (e : Expr)
    (he : e.Below rk bound) : rk.law.Evals .nested room e := by
  intro p hint
  have hcalls : ∀ name ∈ e.kind.calls, rk.law.Fills .nested room name ∧
      ∀ vs p, rk.law.Runs room p fun i => (Evaluator.nested i).invoke name vs := by
    intro name hname
    have hfilled := hfills name (he.call hname)
    exact ⟨hfilled, fun vs p => next (Law.callValues hbodies hfilled vs) fun _ _ => rfl⟩
  have hparts : ∀ e' ∈ e.kind.parts, rk.law.Evals .nested room e' := by
    intro e' hpart
    have hsize : sizeOf e' < sizeOf e := by
      have hlt := ExprKind.sizeOf_part hpart
      obtain ⟨kind, span⟩ := e
      have hlt : sizeOf e' < sizeOf kind := hlt
      simp only [Expr.mk.sizeOf_spec]
      omega
    exact evals hbodies hfills hmakes e' (he.part hpart)
  exact next (Law.expr hbodies hcalls (fun t ht => hmakes t (he.makes ht)) hparts) fun _ _ => rfl
termination_by sizeOf e

/-- Whatever ranks below a bound settles. -/
structure Settles (rk : Ranking) (room bound : Option ℕ) : Prop where
  fills : ∀ name, rk.Under bound (.sub name) → rk.law.Fills .nested room name
  makes : ∀ t : Ty, t.Below rk bound → rk.law.Makes .nested room t
  evals : ∀ e : Expr, e.Below rk bound → rk.law.Evals .nested room e

/-- What ranks below a bound asks only for defaults of lower ranks. -/
theorem Settles.of_lower (hbodies : rk.law.Bodies .nested room)
    (h : ∀ n, (∀ b ∈ bound, n < b) → rk.Settles room (some n)) : rk.Settles room bound := by
  have hfills : ∀ name, rk.Under bound (.sub name) →
      rk.law.Fills .nested room name := by
    rintro name hname sub hsub rfl q hq
    have hlower := h _ hname
    exact ⟨fun e he => hlower.evals e ((hsub.1 q hq).1 e he),
      fun hnone => (hlower.makes _ ((hsub.1 q hq).2 hnone)).default⟩
  have hmakes : ∀ t : Ty, t.Below rk bound → rk.law.Makes .nested room t := by
    refine fun t ht => Ranking.makes (fun d hd hrank f hf => ?_) ht
    have hlower := h _ hrank
    exact ⟨fun e he => hlower.evals e ((hd f hf).1 e he),
      fun hnone => (hlower.makes _ ((hd f hf).2 hnone)).default⟩
  exact ⟨hfills, hmakes, fun e he => Ranking.evals hbodies hfills hmakes e he⟩

/-- Everything settles, where bodies do. -/
theorem settles (hbodies : rk.law.Bodies .nested room) : rk.Settles room none := by
  have hbounded : ∀ n, rk.Settles room (some n) := by
    intro n
    induction n using Nat.strong_induction_on with
    | h n ih => exact .of_lower hbodies fun m hm => ih m (hm n rfl)
  exact .of_lower hbodies fun n _ => hbounded n

/-- Founded statements settle, where bodies do. -/
theorem executes (hbodies : rk.law.Bodies .nested room) (s : Stmt)
    (hs : s.Founded rk) : rk.law.Executes .nested room s := by
  have hsettles := settles hbodies
  have hall : ∀ e, rk.law.Evals .nested room e :=
    fun e => hsettles.evals e e.below_none
  have hready : rk.law.Ready .nested room :=
    ⟨hbodies.library, fun t => hsettles.makes t t.below_none⟩
  intro p
  refine next (Law.statement hready hs (fun e _ => hall e) (fun t hsize ht => ?_)
    fun hrepeats => ?_) fun _ _ => rfl
  · exact executes hbodies t ht
  · obtain ⟨hloops, -, -, -⟩ := hs
    exact nomatch hloops.symm.trans hrepeats
termination_by sizeOf s

/-- Bodies settle, whatever room there is for calls. -/
theorem bodies (rk : Ranking) (room : ℕ) : rk.law.Bodies .nested (some room) := by
  have hlibrary := Law.Stocked.of_standard (L := rk.law) Evaluator.nested_library
  induction room with
  | zero => exact ⟨hlibrary, fun h => absurd rfl h, fun h => absurd rfl h⟩
  | succ room ih =>
    refine ⟨hlibrary, fun _ sub hsub p => ?_, fun _ t => ?_⟩
    · have hblock : rk.law.Runs (some room) p fun i =>
          (Evaluator.nested i).block sub.body :=
        Law.block fun s hs => executes ih s (hsub.2 s hs)
      exact hblock.weaken fun _ _ => .inl trivial
    · exact ((settles ih).makes t t.below_none).default

/-- A builtin sub has no defaults and no body. -/
theorem founded_builtinDeclaration (rk : Ranking) (name param : String) (type : TypeExpr)
    (returns : Primitive) (htype : type.names = []) :
    (builtinDeclaration name param type returns).Founded rk := by
  refine .mk rfl ?_ (fun _ h => nomatch h) (by rintro _ ⟨⟩ _ ⟨⟩)
  intro q hq
  cases List.mem_singleton.mp hq
  refine ⟨fun _ he => (nomatch he), fun _ n hn => ?_⟩
  have hn' : n ∈ type.names := hn
  rw [htype] at hn'
  exact nomatch hn'

end Ranking

/-- States in which founded programs under a limit on calls start and end. -/
structure State.Founded (s : State) (rk : Ranking) (depth : ℕ) : Prop where
  obeys : s.Obeys rk.grammar
  limit : s.calls.limit = some depth
  room : s.calls.frames.length ≤ depth

theorem State.Founded.initial (rk : Ranking) {settings : Settings} {depth : ℕ}
    (h : settings.maxDepth = some depth) : (initial settings).Founded rk depth :=
  ⟨.initial rk.grammar settings, h, Nat.zero_le depth⟩

/-- Under a limit on calls a founded program ends, with a result or an error, in a state from which
founded programs can go on. More fuel changes nothing, and neither does what would be done where the
fuel ends, so the rules nest no deeper. A run that stops short all the same has come to a view that
goes round, in a state where some value lies in itself. -/
theorem Evaluator.run_terminates {rk : Ranking} {depth : ℕ} {s : State}
    (hs : s.Founded rk depth) {program : List Stmt} (hprogram : ∀ stmt ∈ program, stmt.Founded rk) :
    ∃ fuel, (∀ t, (ofFuel .standard fuel).run program s = .error .outOfFuel t →
        t.store.Cyclic) ∧
      (((ofFuel .standard fuel).run program).state s).Founded rk depth ∧
      (∀ n ≥ fuel, (ofFuel .standard n).run program s = (ofFuel .standard fuel).run program s) ∧
      ∀ n ≥ fuel, ∀ base : Evaluator, base.library = .standard →
        (base.upon n).run program s = (ofFuel .standard fuel).run program s := by
  have hexecutes : ∀ stmt, stmt.Founded rk →
      rk.law.Executes .nested (some (depth - s.calls.frames.length)) stmt :=
    fun stmt => Ranking.executes (rk.bodies _) stmt
  have hcore := coreDeclarations_cases
    (fun name param q returns =>
      hexecutes _ (rk.founded_builtinDeclaration name param (.prim q) returns rfl))
    fun name param q returns => hexecutes _
      (rk.founded_builtinDeclaration name param (.array (.prim q) none) returns rfl)
  have hblock := Law.block (p := s.site) fun stmt hstmt => hexecutes stmt (hprogram stmt hstmt)
  have hinv : rk.law.Inv (some (depth - s.calls.frames.length)) s.site s := by
    refine ⟨(List.append_nil _).symm, fun _ => rfl, hs.obeys, rfl, ?_⟩
    rintro _ ⟨⟩
    exact hs.limit.trans (congrArg some (Nat.add_sub_cancel' hs.room).symm)
  obtain ⟨outcome, hgood, hruns⟩ := Law.run hcore (hblock.weaken fun _ _ => .inl trivial) s hinv
  obtain ⟨fuel, hfuel⟩ := Ranking.eventually_iff.mp hruns
  have hupon : ∀ n ≥ fuel, ∀ base : Evaluator, base.library = .standard →
      (base.upon n).run program s = outcome :=
    fun n hn base hbase => (hfuel n hn ⟨base, hbase⟩).1
  have houtcome : ∀ n ≥ fuel, (ofFuel .standard n).run program s = outcome := by
    intro n hn
    rw [← upon_exhausted]
    exact hupon n hn _ rfl
  rw [← houtcome fuel le_rfl] at hgood hupon
  refine ⟨fuel, fun t hstop => ?_, ?_, fun n hn => ?_, hupon⟩
  · rw [hstop] at hgood
    exact hgood.2.resolve_left id
  · have hcalls : (((ofFuel .standard fuel).run program).state s).calls = s.calls :=
      hgood.state.calls
    exact ⟨hgood.state.declared, hcalls ▸ hs.limit, hcalls ▸ hs.room⟩
  · exact (houtcome n hn).trans (houtcome fuel le_rfl).symm

/-- The program `sub g() as int { yield 2 }; sub f(a as int = g()) as int { yield f(a) }; f()`. -/
def rankedDefault : List Stmt :=
  [.generated (.sub (.mk "g" [] (.prim .int)
      [.generated (.yield (.generated (.literal (.int 2))))] false)),
    .generated (.sub (.mk "f" [⟨"a", .prim .int, some (.generated (.invoke "g" []))⟩] (.prim .int)
      [.generated (.yield (.generated (.invoke "f" [.mk false (.generated (.name "a"))])))] false)),
    .generated (.expression (.generated (.invoke "f" [])))]

theorem founded_rankedDefault {rk : Ranking} (h : rk.sub "g" < rk.sub "f") :
    ∀ stmt ∈ rankedDefault, stmt.Founded rk := by
  have hplain : ∀ {kind : StmtKind} {span : Span}, kind.repeats = false → kind.Descends rk →
      kind.parts = [] → (∀ d, kind ≠ .sub d) → (Stmt.mk kind span).Founded rk := by
    intro kind span hloops hdescends hparts hsub
    exact .mk hloops hdescends (fun s hs => nomatch hparts ▸ hs) fun d hd => absurd hd (hsub d)
  have hyield : ∀ e, (Stmt.generated (.yield e)).Founded rk :=
    fun e => hplain rfl trivial rfl fun _ => nofun
  simp only [rankedDefault, List.forall_mem_cons]
  refine ⟨?_, ?_, ?_, fun _ hs => nomatch hs⟩
  · refine .mk rfl (fun _ hq => nomatch hq) (fun _ hs => nomatch hs) ?_
    rintro _ ⟨⟩ s hs
    cases List.mem_singleton.mp hs
    exact hyield _
  · refine .mk rfl ?_ (fun _ hs => nomatch hs) ?_
    · intro q hq
      cases List.mem_singleton.mp hq
      refine ⟨?_, nofun⟩
      rintro _ ⟨⟩
      intro m hm
      cases hm with
      | call hname =>
        cases List.mem_singleton.mp hname
        rintro _ ⟨⟩
        exact h
      | made hm => exact nomatch hm
      | part he => exact nomatch he
    · rintro _ ⟨⟩ s hs
      cases List.mem_singleton.mp hs
      exact hyield _
  · exact hplain rfl trivial rfl fun _ => nofun

theorem run_terminates_rankedDefault : ∃ fuel,
    (∀ t, (Evaluator.ofFuel .standard fuel).run rankedDefault (.initial ⟨true, some 8, true⟩) =
      .error .outOfFuel t → t.store.Cyclic) ∧
    ∀ n ≥ fuel, ∀ base : Evaluator, base.library = .standard →
      (base.upon n).run rankedDefault (.initial ⟨true, some 8, true⟩) =
        (Evaluator.ofFuel .standard fuel).run rankedDefault (.initial ⟨true, some 8, true⟩) := by
  let rk : Ranking := ⟨fun name => if name = "f" then 1 else 0, fun _ => 0⟩
  have hrank : rk.sub "g" < rk.sub "f" := by decide
  have hs : (State.initial ⟨true, some 8, true⟩).Founded rk 8 := .initial rk rfl
  obtain ⟨fuel, hends, -, -, hupon⟩ :=
    Evaluator.run_terminates hs (founded_rankedDefault hrank)
  exact ⟨fuel, hends, hupon⟩

/-- The call `f()`. -/
def selfCall : Expr := .generated (.invoke "f" [])

/-- The sub `f(a as int = f()) as int { yield a }`, declared in the global scope. -/
def selfDefaultSub : Sub where
  name := "f"
  params := [⟨"a", .prim .int, some selfCall⟩]
  returns := .prim .int
  body := [.generated (.yield (.generated (.name "a")))]
  signature := signatureText "f" [.prim .int]
  scope := globalPath
  native := false

/-- The declaration of the sub. -/
def selfDefaultDecl : Stmt :=
  .generated (.sub (.mk "f" [⟨"a", .prim .int, some selfCall⟩] (.prim .int)
    [.generated (.yield (.generated (.name "a")))] false))

/-- The program `sub f(a as int = f()) as int { yield a }; f()`. -/
def selfDefault : List Stmt := [selfDefaultDecl, .generated (.expression selfCall)]

/-- The sub is the only overload of its name, here and below the global scope. -/
structure State.SelfDefaults (s : State) : Prop where
  visible : s.env.overloads "f" = [selfDefaultSub]
  live : s.env.isLive globalPath = true
  global : (s.env.scope ⟨0⟩).overloads "f" = [selfDefaultSub]
  size : 0 < s.env.scopes.size

theorem State.SelfDefaults.pushBelow {s : State} (h : s.SelfDefaults) :
    State.SelfDefaults { s with env := s.env.pushBelow globalPath } := by
  have hold : (s.env.pushBelow globalPath).scope ⟨0⟩ = s.env.scope ⟨0⟩ := by
    simp only [Environment.scope, Environment.pushBelow, Array.getElem?_push, h.size.ne, if_false]
  have hnew : (s.env.pushBelow globalPath).scope ⟨s.env.scopes.size⟩ = .blank := by
    simp only [Environment.scope, Environment.pushBelow, Array.getElem?_push_size, Option.getD_some]
  refine ⟨?_, ?_, ?_, ?_⟩
  · show [⟨s.env.scopes.size⟩, ⟨0⟩].flatMap
      (fun id => ((s.env.pushBelow globalPath).scope id).overloads "f") = _
    simp only [List.flatMap_cons, List.flatMap_nil, List.append_nil, hold, hnew, h.global]
    rfl
  · simp [Environment.isLive, globalPath, Environment.current, Environment.pushBelow]
  · show ((s.env.pushBelow globalPath).scope ⟨0⟩).overloads "f" = _
    rw [hold]
    exact h.global
  · show 0 < (s.env.scopes.push .blank).size
    simp

theorem selfCall_exhausts (n : ℕ) (hint : Option Ty) {s : State} (hs : s.SelfDefaults) :
    ∃ t, (Evaluator.ofFuel .standard n).eval hint selfCall s = .error .outOfFuel t := by
  induction n generalizing hint s with
  | zero => exact ⟨s, rfl⟩
  | succ n ih =>
    have hread : Run.read (fun s => s.env.overloads "f") s = .ok [selfDefaultSub] s :=
      congrArg (EStateM.Result.ok · s) hs.visible
    have hfitting : Evaluator.fittingOverloads "f" 0 s = .ok [selfDefaultSub] s :=
      Run.bind_ok hread _
    obtain ⟨t, ht⟩ := ih (Ty.prim .int).hint? hs.pushBelow
    have hdefault : (Evaluator.ofFuel .standard n).parameterDefault selfDefaultSub
        ⟨"a", .prim .int, some selfCall⟩ s = .error .outOfFuel (Run.popScope t) := by
      have hscope : selfDefaultSub.scope = globalPath := rfl
      simp only [Evaluator.parameterDefault, Run.inLiveScope, hscope, hs.live, if_true,
        Run.inScopeBelow, Run.leaving, ht]
    have hfilled : (Evaluator.ofFuel .standard n).fillDefaults selfDefaultSub
        selfDefaultSub.params [none] s = .error .outOfFuel (Run.popScope t) :=
      Run.bind_error (Run.bind_error hdefault _) _
    have hbound : (Evaluator.ofFuel .standard n).bindArguments selfDefaultSub [] s =
        .ok [none] s := rfl
    have hchosen : (Evaluator.ofFuel .standard n).resolveOverload "f" [] s =
        .error .outOfFuel (Run.popScope t) := by
      refine (Run.bind_ok hfitting _).trans ?_
      simp only [Evaluator.firstAccepting, Run.either, hbound]
      exact Run.bind_error hfilled _
    refine ⟨Run.popScope t, ?_⟩
    have hcall : (Evaluator.ofFuel .standard n).callExpr "f" none [] .nowhere s =
        .error .outOfFuel (Run.popScope t) := Run.bind_error hchosen _
    show Run.atSpan .nowhere ((Evaluator.ofFuel .standard n).callExpr "f" none [] .nowhere) s = _
    simp only [Run.atSpan, Run.mapReport, hcall, Stop.mapReport]

/-- The program never ends, whatever the limit on calls is, although it has no loops. -/
theorem selfDefault_endless : ¬ ∃ limit fuel, ∀ t,
    (Evaluator.ofFuel .standard fuel).run selfDefault (.initial ⟨false, limit, true⟩) ≠
      .error .outOfFuel t := by
  rintro ⟨limit, fuel, hends⟩
  cases fuel with
  | zero => exact hends _ rfl
  | succ fuel =>
    let s : State := { State.initial ⟨false, limit, true⟩ with
      env := Environment.fresh.addSub selfDefaultSub }
    obtain ⟨t, ht⟩ := selfCall_exhausts fuel none (s := s) ⟨rfl, rfl, rfl, Nat.one_pos⟩
    have hcall : (Evaluator.ofFuel .standard (fuel + 1)).exec
        (.generated (.expression selfCall)) s = .error .outOfFuel t := by
      show Run.traced _ _ ((Evaluator.ofFuel .standard fuel).eval none selfCall >>=
        fun _ => pure Flow.normal) s = _
      simp only [Run.traced, Run.mapReport, Run.bind_error ht, Stop.mapReport]
    have hdeclared : (Evaluator.ofFuel .standard (fuel + 1)).exec selfDefaultDecl
        (.initial ⟨false, limit, true⟩) = .ok .normal s := rfl
    have hblock : (Evaluator.ofFuel .standard (fuel + 1)).block selfDefault
        (.initial ⟨false, limit, true⟩) = .error .outOfFuel t :=
      (Run.bind_ok hdeclared _).trans (Run.bind_error hcall _)
    exact hends t (Run.bind_error hblock _)

end BasicScript
