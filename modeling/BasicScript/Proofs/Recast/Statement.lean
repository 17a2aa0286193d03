import BasicScript.Proofs.Recast.Composite

/-! # Recast declarations and statements

Names, parameters and fields enter the recast scope as they enter the scope
itself, and a statement ends with the recast signal. The test and the
increment that a counting loop makes up have no place in a program, and keep
none.
-/

namespace BasicScript

namespace Recast.Follows

open Recast.Carries (fail pure read reads require ite guarded failOn)

variable {R : Recast} {r r' : Evaluator}

theorem bindingType (v : Value) (t : Ty) :
    R.Maps id (Evaluator.bindingType v t) (Evaluator.bindingType (v.mapSpans R.span) t) := by
  cases t with
  | inferred =>
    refine (Carries.typeOf v).bind fun found _ => ?_
    exact require _ (congrFun Option.map_id found).symm fun _ _ => trivial
  | _ => exact pure rfl trivial

theorem bind (name : String) (t : Ty) (v : Value) (constant : Bool) :
    R.Maps id (Evaluator.bind name t v constant)
      (Evaluator.bind name t (v.mapSpans R.span) constant) :=
  (bindingType v t).bind fun t _ => (Carries.conform t v).bind fun w _ =>
    (Carries.declareVariable name ⟨t, w, constant⟩).bind fun _ _ => pure rfl trivial

theorem bindEach (h : R.Follows r r') (constant : Bool) (names : List (String × TypeExpr))
    (vs : List Value) :
    R.Maps id (r.bindEach constant names vs)
      (r'.bindEach constant (mapNames R.span names) (vs.map (Value.mapSpans R.span))) := by
  induction names generalizing vs with
  | nil => exact pure rfl trivial
  | cons n names ih =>
    cases vs with
    | nil => exact pure rfl trivial
    | cons v vs =>
      exact (h.resolveType n.2).bind fun t _ => (bind n.1 t v constant).bind fun _ _ => ih vs

theorem bindAll (h : R.Follows r r') (names : List (String × TypeExpr)) (vs : List Value)
    (constant : Bool) :
    R.Maps id (r.bindAll names vs constant)
      (r'.bindAll (mapNames R.span names) (vs.map (Value.mapSpans R.span)) constant) := by
  unfold Evaluator.bindAll
  simp only [mapNames_length, List.length_map]
  exact guarded Iff.rfl (h.bindEach constant names vs)

theorem declareVariable (h : R.Follows r r') (name : String) (written : TypeExpr) (init : Expr)
    (constant : Bool) :
    R.Maps id (r.declareVariable name written init constant)
      (r'.declareVariable name (written.mapSpans R.span) (init.mapSpans R.span) constant) := by
  refine (h.resolveType written).bind fun t _ => (h.eval t.hint? init).bind fun v _ => ?_
  refine ite (by rw [v.isMissing_mapSpans]) (fun _ => ?_) fun _ => bind name t v constant
  refine ite Iff.rfl (fun _ => ?_) fun _ => ?_
  · rw [Expr.span_mapSpans]
    exact (fail _).atSpan init.span
  · exact (h.default t).bind fun w _ => bind name t w constant

theorem parameters (h : R.Follows r r') (params : List Param) :
    R.Maps (List.map (Parameter.mapSpans R.span)) (r.parameters params)
      (r'.parameters (params.map (Param.mapSpans R.span))) := by
  refine Carries.mapM (fun p => ?_) params
  exact (h.resolveType p.type).bind fun t _ => pure rfl trivial

theorem returnType (h : R.Follows r r') (written : TypeExpr) :
    R.Maps id (r.returnType written) (r'.returnType (written.mapSpans R.span)) := by
  cases written with
  | inferred => exact pure rfl trivial
  | prim p => exact h.resolveType (.prim p)
  | array element size => exact h.resolveType (.array element size)
  | vararg element => exact h.resolveType (.vararg element)
  | named name => exact h.resolveType (.named name)

theorem requireNative (h : R.Follows r r') (signature : String) (returns : Ty) :
    R.Maps id (r.requireNative signature returns) (r'.requireNative signature returns) := by
  unfold Evaluator.requireNative
  rw [h.library]
  have hfound : R.Maps id (Run.require (.missingBuiltin signature) (r.library.lookup signature))
      (Run.require (.missingBuiltin signature) (r.library.lookup signature)) :=
    require _ (congrFun Option.map_id _).symm fun _ _ => trivial
  exact hfound.bind fun native _ =>
    ite Iff.rfl (fun _ => fail _) fun _ => pure rfl trivial

/-- The current path leads outwards. -/
theorem currentPath : R.Carries ScopePath.Outward id (Run.read fun s => s.env.current)
    (Run.read fun s => s.env.current) :=
  read fun _ hs => ⟨rfl, hs.current.1⟩

theorem declareSub (h : R.Follows r r') (d : SubDef) :
    R.Maps id (r.declareSub d) (r'.declareSub (d.mapSpans R.span)) := by
  obtain ⟨name, params, returns, body, builtin⟩ := d
  rw [SubDef.mapSpans, Stmt.mapSpansAll_eq_map]
  refine (h.parameters params).bind fun params _ => (h.returnType returns).bind fun returns _ => ?_
  have htypes : (params.map (Parameter.mapSpans R.span)).map (·.type) = params.map (·.type) :=
    List.map_map
  simp only [SubDef.name, SubDef.body, SubDef.builtin, htypes, id]
  have hdeclare : ∀ scope, ScopePath.Outward scope → R.Maps id _ _ := fun scope hscope =>
    Carries.declareSub (R := R) (signatureText name (params.map (·.type))) name
      ⟨name, params, returns, body, signatureText name (params.map (·.type)), scope, builtin⟩ hscope
  refine ite Iff.rfl (fun _ => ?_) fun _ => currentPath.bind hdeclare
  exact (h.requireNative _ returns).bind fun _ _ => currentPath.bind hdeclare

theorem declareData (h : R.Follows r r') (name : String) (fields : List FieldDef) :
    R.Maps id (r.declareData name fields)
      (r'.declareData name (fields.map (FieldDef.mapSpans R.span))) := by
  have hfields : R.Maps (List.map (Field.mapSpans R.span))
      (fields.mapM fun f => do
        return (⟨f.name, ← r.resolveType f.type, f.constant, f.default⟩ : Field))
      ((fields.map (FieldDef.mapSpans R.span)).mapM fun f => do
        return (⟨f.name, ← r'.resolveType f.type, f.constant, f.default⟩ : Field)) := by
    refine Carries.mapM (fun f => ?_) fields
    exact (h.resolveType f.type).bind fun t _ => pure rfl trivial
  exact hfields.bind fun fields _ => currentPath.bind fun scope hscope =>
    Carries.declareData name ⟨name, fields, scope⟩ hscope

theorem declareAlias (h : R.Follows r r') (name : String) (written : TypeExpr) :
    R.Maps id (r.declareAlias name written)
      (r'.declareAlias name (written.mapSpans R.span)) :=
  (h.resolveType written).bind fun t _ => Carries.declareAlias name t

theorem ordinalValue (h : R.Follows r r') (t : Ty) (ordinal : Nat) :
    R.Maps (Value.mapSpans R.span) (r.ordinalValue t ordinal) (r'.ordinalValue t ordinal) := by
  unfold Evaluator.ordinalValue
  split
  · exact pure rfl trivial
  · split
    · exact ite Iff.rfl (fun _ => pure rfl trivial) fun _ => h.default _
    · exact h.default _

theorem entryElement (h : R.Follows r r') (t : Ty) (ordinal : Nat) (elements : List Expr) :
    R.Maps (Value.mapSpans R.span) (r.entryElement t ordinal elements)
      (r'.entryElement t ordinal (elements.map (Expr.mapSpans R.span))) := by
  cases elements with
  | nil => exact h.ordinalValue t ordinal
  | cons e rest => exact h.eval t.hint? e

theorem basicEntry (h : R.Follows r r') (t : Ty) (ordinal : Nat) (elements : List Expr) :
    R.Maps (Value.mapSpans R.span) (r.basicEntry t ordinal elements)
      (r'.basicEntry t ordinal (elements.map (Expr.mapSpans R.span))) := by
  refine (h.entryElement t ordinal elements).bind fun v _ => ?_
  cases t with
  | inferred =>
    exact ite (by rw [v.isMissing_mapSpans]) (fun _ => fail _) fun _ => pure rfl trivial
  | _ => exact Carries.conform _ v

theorem entryValues {value value' : Nat → List Expr → Run Value}
    (h : ∀ ordinal elements, R.Maps (Value.mapSpans R.span) (value ordinal elements)
      (value' ordinal (elements.map (Expr.mapSpans R.span))))
    (ordinal : Nat) (entries : List EntryDef) :
    R.Maps (List.map fun e => (e.1, e.2.mapSpans R.span))
      (Evaluator.entryValues value ordinal entries)
      (Evaluator.entryValues value' ordinal (entries.map (EntryDef.mapSpans R.span))) := by
  induction entries generalizing ordinal with
  | nil => exact pure rfl trivial
  | cons e rest ih =>
    exact (h ordinal e.elements).bind fun _ _ => (ih (ordinal + 1)).bind fun _ _ => pure rfl trivial

theorem enumEntries (h : R.Follows r r') (kind : EnumKind) (entries : List EntryDef) :
    R.Maps (fun built => (built.1, built.2.map fun e => (e.1, e.2.mapSpans R.span)))
      (r.enumEntries kind entries)
      (r'.enumEntries (kind.mapSpans R.span) (entries.map (EntryDef.mapSpans R.span))) := by
  cases kind with
  | basic written =>
    exact (h.resolveType written).bind fun t _ =>
      (entryValues (h.basicEntry t) 0 entries).bind fun _ _ => pure rfl trivial
  | data data =>
    exact (h.resolveType (.named data)).bind fun t _ =>
      (entryValues (fun _ elements => h.instantiate t elements) 0 entries).bind fun _ _ =>
        pure rfl trivial

theorem declareEnum (h : R.Follows r r') (name : String) (kind : EnumKind)
    (entries : List EntryDef) :
    R.Maps id (r.declareEnum name kind entries)
      (r'.declareEnum name (kind.mapSpans R.span) (entries.map (EntryDef.mapSpans R.span))) :=
  (h.enumEntries kind entries).bind fun built _ =>
    Carries.declareEnum name ⟨name, built.1, built.2⟩

theorem test (h : R.Follows r r') (e : Expr) :
    R.Maps id (r.test e) (r'.test (e.mapSpans R.span)) := by
  refine (h.eval none e).bind fun v _ => ?_
  have hfail : R.Maps (α := Bool) id
      (Run.atSpan e.span (do Run.fail (.invalidTest (← Run.typeOf v))))
      (Run.atSpan (e.mapSpans R.span).span
        (do Run.fail (.invalidTest (← Run.typeOf (v.mapSpans R.span))))) := by
    rw [Expr.span_mapSpans]
    exact ((Carries.typeOf v).bind fun t _ => fail _).atSpan e.span
  cases v with
  | bool b => exact pure rfl trivial
  | _ => exact hfail

theorem branches (h : R.Follows r r') (otherwise : Option (List Stmt)) (bs : List Branch) :
    R.Maps (Flow.mapSpans R.span) (r.branches otherwise bs)
      (r'.branches (Stmt.mapSpansAll? R.span otherwise) (bs.map (Branch.mapSpans R.span))) := by
  induction bs with
  | nil =>
    cases otherwise with
    | none => exact pure rfl trivial
    | some body =>
      rw [Stmt.mapSpansAll?, Stmt.mapSpansAll_eq_map]
      exact h.scopedBlock body
  | cons b rest ih =>
    obtain ⟨test, body⟩ := b
    rw [List.map_cons, Branch.mapSpans, Stmt.mapSpansAll_eq_map]
    refine (h.test test).bind fun holds _ => ?_
    exact ite Iff.rfl (fun _ => h.scopedBlock body) fun _ => ih

theorem anyEqual (h : R.Follows r r') (subject : Value) (values : List Expr) :
    R.Maps id (r.anyEqual subject values)
      (r'.anyEqual (subject.mapSpans R.span) (values.map (Expr.mapSpans R.span))) := by
  induction values with
  | nil => exact pure rfl trivial
  | cons e rest ih =>
    refine (h.eval none e).bind fun v _ => ?_
    refine (Carries.ending fun σ => σ.equalEnds_mapSpans subject v).bind fun _ _ => ?_
    refine (reads (g := id) fun s => s.store.equal_mapSpans subject v).bind fun same _ => ?_
    exact ite Iff.rfl (fun _ => pure rfl trivial) fun _ => ih

theorem caseMatches (h : R.Follows r r') (subject : Value) (test : CaseTest) :
    R.Maps id (r.caseMatches subject test)
      (r'.caseMatches (subject.mapSpans R.span) (test.mapSpans R.span)) := by
  cases test with
  | values values => exact h.anyEqual subject values
  | type written inverted =>
    refine (h.resolveType written).bind fun t _ => reads fun s => ?_
    exact congrArg (· != inverted) (t.admits_mapSpans s.store subject)
  | otherwise => exact pure rfl trivial

theorem cases (h : R.Follows r r') (label : Option String) (subject : Value) (cs : List Case) :
    R.Maps (Flow.mapSpans R.span) (r.cases label subject cs)
      (r'.cases label (subject.mapSpans R.span) (cs.map (Case.mapSpans R.span))) := by
  induction cs with
  | nil => exact pure rfl trivial
  | cons case rest ih =>
    obtain ⟨test, body⟩ := case
    rw [List.map_cons, Case.mapSpans, Stmt.mapSpansAll_eq_map]
    refine (h.caseMatches subject test).bind fun chosen _ => ite Iff.rfl (fun _ => ?_) fun _ => ih
    refine (h.scopedBlock body).bind fun flow _ => ?_
    rw [flow.caseStep_mapSpans]
    cases flow.caseStep label with
    | done => exact pure rfl trivial
    | onward => exact ih
    | pass s => exact pure rfl trivial

/-- What a loop makes of its body. -/
theorem bodyStep {x y : Run Flow} (h : R.Maps (Flow.mapSpans R.span) x y) (label : Option String) :
    R.Maps (LoopStep.mapSpans R.span) (do return (← x).loopStep label)
      (do return (← y).loopStep label) :=
  h.bind fun flow _ => pure (flow.loopStep_mapSpans label) trivial

theorem rounds_loop (h : R.Follows r r') {x y : Run LoopStep}
    (hstep : R.Maps (LoopStep.mapSpans R.span) x y) :
    R.Maps (Flow.mapSpans R.span) (Run.loop x r.rounds) (Run.loop y r'.rounds) := by
  rw [h.rounds]
  exact hstep.loop r.rounds

theorem whileStep (h : R.Follows r r') (label : Option String) (test : Expr) (body : List Stmt) :
    R.Maps (LoopStep.mapSpans R.span) (r.whileStep label test body)
      (r'.whileStep label (test.mapSpans R.span) (body.map (Stmt.mapSpans R.span))) :=
  (h.test test).bind fun _ _ =>
    ite Iff.rfl (fun _ => bodyStep (h.scopedBlock body) label) fun _ => pure rfl trivial

theorem untilStep (h : R.Follows r r') (label : Option String) (test : Expr) (body : List Stmt) :
    R.Maps (LoopStep.mapSpans R.span) (r.untilStep label test body)
      (r'.untilStep label (test.mapSpans R.span) (body.map (Stmt.mapSpans R.span))) := by
  refine (h.scopedBlock body).bind fun flow _ => ?_
  rw [flow.loopStep_mapSpans]
  cases flow.loopStep label with
  | again =>
    refine (h.test test).bind fun holds _ => pure ?_ trivial
    cases holds <;> rfl
  | stop => exact pure rfl trivial
  | pass s => exact pure rfl trivial

theorem countStep (h : R.Follows r r') (label : Option String) (test increment : Expr)
    (body : List Stmt) :
    R.Maps (LoopStep.mapSpans R.span) (r.countStep label test increment body)
      (r'.countStep label (test.mapSpans R.span) (increment.mapSpans R.span)
        (body.map (Stmt.mapSpans R.span))) := by
  refine (h.whileStep label test body).bind fun step _ => ?_
  cases step with
  | again => exact (h.eval none increment).bind fun _ _ => pure rfl trivial
  | stop => exact pure rfl trivial
  | pass s => exact pure rfl trivial

theorem countLoop (h : R.Follows r r') (label : Option String) (name : String) (type : TypeExpr)
    (start limit : Expr) (step : Option Expr) (body : List Stmt) :
    R.Maps (Flow.mapSpans R.span) (r.countLoop label name type start limit step body)
      (r'.countLoop label name (type.mapSpans R.span) (start.mapSpans R.span)
        (limit.mapSpans R.span) (step.map (Expr.mapSpans R.span))
        (body.map (Stmt.mapSpans R.span))) := by
  -- what the loop makes up is nowhere, and stays there
  have hgenerated : ∀ kind : ExprKind,
      (Expr.generated kind).mapSpans R.span = .generated (kind.mapSpans R.span) := by
    intro kind
    simp only [Expr.generated, Expr.mapSpans_mk, R.nowhere]
  have hstep : (step.map (Expr.mapSpans R.span)).getD (.generated (.literal (.int 1))) =
      (step.getD (.generated (.literal (.int 1)))).mapSpans R.span := by
    cases step with
    | none => exact (hgenerated (.literal (.int 1))).symm
    | some e => rfl
  unfold Evaluator.countLoop
  simp only [hstep, Expr.span_mapSpans]
  refine Carries.inScope ?_
  refine (h.resolveType type).bind fun t _ => (h.eval t.hint? start).bind fun v _ => ?_
  refine (bind name t v false).bind fun _ _ => ?_
  have hloop := h.rounds_loop (h.countStep label
    (.mk (.binary .less (.generated (.name name)) limit) limit.span)
    (.mk (.binary .assign (.generated (.name name)) (.generated (.binary .add
      (.generated (.name name)) (step.getD (.generated (.literal (.int 1))))))) start.span) body)
  simpa only [Expr.mapSpans_mk, ExprKind.mapSpans, hgenerated] using hloop

theorem eachStep (h : R.Follows r r') (label : Option String) (name : String) (t : Ty)
    (body : List Stmt) (v : Value) :
    R.Maps (LoopStep.mapSpans R.span) (r.eachStep label name t body v)
      (r'.eachStep label name t (body.map (Stmt.mapSpans R.span)) (v.mapSpans R.span)) :=
  bodyStep ((bind name t v false).bind fun _ _ => h.block body).inScope label

theorem eachOfStep (h : R.Follows r r') (label : Option String) (names : List (String × TypeExpr))
    (body : List Stmt) (v : Value) :
    R.Maps (LoopStep.mapSpans R.span) (r.eachOfStep label names body v)
      (r'.eachOfStep label (mapNames R.span names) (body.map (Stmt.mapSpans R.span))
        (v.mapSpans R.span)) :=
  (Carries.elementsOf v).bind fun vs _ =>
    bodyStep ((h.bindAll names vs false).bind fun _ _ => h.block body).inScope label

theorem stmtKind (h : R.Follows r r') (kind : StmtKind) :
    R.Maps (Flow.mapSpans R.span) (r.stmtKind kind) (r'.stmtKind (kind.mapSpans R.span)) := by
  have hnormal : ∀ {α : Type} {x y : Run α} {g : α → α}, R.Maps g x y →
      R.Maps (Flow.mapSpans R.span) (x >>= fun _ => Pure.pure Flow.normal)
        (y >>= fun _ => Pure.pure Flow.normal) :=
    fun hx => hx.bind fun _ _ => pure rfl trivial
  cases kind with
  | none => exact pure rfl trivial
  | expression e => exact hnormal (h.eval none e)
  | declare name type init constant => exact hnormal (h.declareVariable name type init constant)
  | declareEach names init constant =>
    exact (h.eval none init).bind fun v _ => (Carries.elementsOf v).bind fun vs _ =>
      hnormal (h.bindAll names vs constant)
  | block body =>
    rw [StmtKind.mapSpans, Stmt.mapSpansAll_eq_map]
    exact h.scopedBlock body
  | doBlock label body =>
    rw [StmtKind.mapSpans, Stmt.mapSpansAll_eq_map]
    exact (h.scopedBlock body).bind fun flow _ => pure (flow.afterBlock_mapSpans label) trivial
  | ifElse bs otherwise =>
    rw [StmtKind.mapSpans, Branch.mapSpansAll_eq_map]
    exact h.branches otherwise bs
  | switch label subject cs =>
    rw [StmtKind.mapSpans, Case.mapSpansAll_eq_map]
    exact (h.eval none subject).bind fun v _ => h.cases label v cs
  | whileLoop label test body =>
    rw [StmtKind.mapSpans, Stmt.mapSpansAll_eq_map]
    exact h.rounds_loop (h.whileStep label test body)
  | untilLoop label test body =>
    rw [StmtKind.mapSpans, Stmt.mapSpansAll_eq_map]
    exact h.rounds_loop (h.untilStep label test body)
  | forCount label name type start limit step body =>
    rw [StmtKind.mapSpans, Stmt.mapSpansAll_eq_map]
    exact h.countLoop label name type start limit step body
  | forEach label name type iterable body =>
    rw [StmtKind.mapSpans, Stmt.mapSpansAll_eq_map]
    exact (h.resolveType type).bind fun t _ => (h.iterationValues iterable).bind fun vs _ =>
      Carries.forValues (h.eachStep label name t body) vs
  | forEachOf label names iterable body =>
    rw [StmtKind.mapSpans, Stmt.mapSpansAll_eq_map]
    exact (h.iterationValues iterable).bind fun vs _ =>
      Carries.forValues (h.eachOfStep label names body) vs
  | data name fields => exact hnormal (h.declareData name fields)
  | sub d => exact hnormal (h.declareSub d)
  | breakTo label => exact pure rfl trivial
  | nextTo label => exact pure rfl trivial
  | leave => exact pure rfl trivial
  | yield value =>
    have hexpected : R.Maps id (Run.read fun s => s.returns.head?)
        (Run.read fun s => s.returns.head?) := reads fun _ => rfl
    refine hexpected.bind fun expected _ => ?_
    exact (h.eval (expected.bind Ty.hint?) value).bind fun v _ => pure rfl trivial
  | «alias» name type => exact hnormal (h.declareAlias name type)
  | enum name kind entries => exact hnormal (h.declareEnum name kind entries)

theorem stmt (h : R.Follows r r') (s : Stmt) :
    R.Maps (Flow.mapSpans R.span) (r.stmt s) (r'.stmt (s.mapSpans R.span)) := by
  unfold Evaluator.stmt
  rw [Stmt.kind_mapSpans, Stmt.span_mapSpans, StmtKind.describe_mapSpans]
  exact (h.stmtKind s.kind).traced s.kind.describe s.span

end Recast.Follows

end BasicScript
