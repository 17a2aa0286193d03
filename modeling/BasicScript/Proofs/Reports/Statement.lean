import BasicScript.Proofs.Reports.Basic

/-! # Reports of statements

Evaluators that report faithfully, however departures are noted, give rules
that report faithfully. The statements that an error can leave are those of
the blocks of a form; what is declared, built or looked up executes none.
-/

namespace BasicScript

/-- The evaluators, one for each way of noting departures, report faithfully. What is asked of a
statement is that it be among those that may be executed. -/
structure Evaluator.Reporting (r : Notes → Evaluator) : Prop where
  library : ∀ ν, (r ν).library = .standard
  rounds : ∃ n, ∀ ν, (r ν).rounds = n
  eval : ∀ {parts} hint e, Run.Reports parts fun ν => (r ν).eval hint e
  exec : ∀ {parts}, ∀ stmt ∈ parts, Run.Reports parts fun ν => (r ν).exec stmt
  default : ∀ {parts} t, Run.Reports parts fun ν => (r ν).default t
  invoke : ∀ {parts} name args, Run.Reports parts fun ν => (r ν).invoke name args

namespace Evaluator.Reporting

open Run (Reports)
open Run.Reports (read require pure fail failOn of_local)

variable {r : Notes → Evaluator} {parts body : List Stmt}

section Blocks

/-! ## Blocks and loops -/

variable (h : Reporting r)

include h

theorem block (hbody : body ⊆ parts) : Reports parts fun ν => (r ν).block body := by
  induction body with
  | nil => exact pure _
  | cons stmt rest ih =>
    obtain ⟨hstmt, hrest⟩ := List.cons_subset.mp hbody
    refine (h.exec stmt hstmt).bind fun flow => ?_
    cases flow with
    | normal => exact ih hrest
    | signal s => exact pure _

theorem scopedBlock (hbody : body ⊆ parts) : Reports parts fun ν => (r ν).scopedBlock body :=
  (h.block hbody).inScope

theorem loop {step : Notes → Run LoopStep} (hstep : Reports parts step) :
    Reports parts fun ν => Run.loop (step ν) (r ν).rounds := by
  obtain ⟨n, hn⟩ := h.rounds
  simp only [hn]
  exact hstep.loop n

end Blocks

section Composites

/-! ## Types and composite values -/

variable (h : Reporting r)

include h

theorem arraySize (size : Expr) : Reports parts fun ν => (r ν).arraySize size := by
  refine (h.eval none size).bind fun v => ?_
  cases v.integral? with
  | some n => exact pure _
  | none => exact failOn _ v

theorem resolveType (written : TypeExpr) :
    Reports parts fun ν => (r ν).resolveType written := by
  induction written using Evaluator.resolveType.induct with
  | case1 => exact pure _
  | case2 p => exact pure _
  | case3 element ih => exact ih.bind fun _ => pure _
  | case4 element size ih => exact ih.bind fun _ => (h.arraySize size).bind fun _ => pure _
  | case5 element ih => exact ih.bind fun _ => pure _
  | case6 name => exact (read _).bind fun _ => require _ _

theorem suppliedValue (t : Ty) (element : Option Expr) :
    Reports parts fun ν => (r ν).suppliedValue t element := by
  cases element with
  | none => exact pure _
  | some e => exact h.eval _ e

theorem fieldValue (scope : ScopePath) (field : Field) (element : Option Expr) :
    Reports parts fun ν => (r ν).fieldValue scope field element := by
  refine (h.suppliedValue _ element).bind fun supplied => .ite ?_ (pure _)
  cases field.default with
  | some e => exact (h.eval _ e).inLiveScope scope
  | none => exact h.default _

theorem fieldCells (scope : ScopePath) (fields : List Field) (elements : List Expr) :
    Reports parts fun ν => (r ν).fieldCells scope fields elements := by
  induction fields generalizing elements with
  | nil => exact pure _
  | cons field fields ih =>
    exact (h.fieldValue scope field _).bind fun _ => (Reports.conform _ _).bind fun _ =>
      (of_local (.newCell _)).bind fun _ => (ih _).bind fun _ => pure _

theorem instantiateData (name : String) (elements : List Expr) :
    Reports parts fun ν => (r ν).instantiateData name elements := by
  refine (read _).bind fun found => (require _ found).bind fun decl => .guarded _ ?_
  exact (h.fieldCells _ _ _).bind fun _ => pure _

theorem instantiateArray (element : Ty) (size : Option Nat) (elements : List Expr) :
    Reports parts fun ν => (r ν).instantiateArray element size elements := by
  have hgiven : Reports parts fun ν => elements.mapM fun e =>
      (r ν).eval element.hint? e >>= Run.conform element :=
    Reports.mapM (fun e => (h.eval _ e).bind fun _ => Reports.conform _ _) elements
  refine .guarded _ (hgiven.bind fun given => ?_)
  exact (Reports.mapM h.default _).bind fun _ => of_local (.newArray _ _)

theorem instantiate (t : Ty) (elements : List Expr) :
    Reports parts fun ν => (r ν).instantiate t elements := by
  cases t with
  | data name => exact h.instantiateData name elements
  | array element size => exact h.instantiateArray element size elements
  | vararg element => exact h.instantiateArray element none elements
  | _ => exact fail _

theorem arrayLiteral (hint : Option Ty) (elements : List Expr) :
    Reports parts fun ν => (r ν).arrayLiteral hint elements := by
  have htyped : Reports parts fun ν => elements.mapM fun e => do
      let v ← (r ν).eval hint e
      return (v, ← Run.require .cannotInfer (← Run.typeOf v)) :=
    Reports.mapM (fun e => (h.eval hint e).bind fun v => (Reports.typeOf v).bind fun _ =>
      (require _ _).bind fun _ => pure _) elements
  refine htyped.bind fun typed => ?_
  exact (Reports.mapM (fun _ => Reports.conform _ _) typed).bind fun _ => of_local (.newArray _ _)

theorem defaultValue (t : Ty) : Reports parts fun ν => (r ν).defaultValue t := by
  cases t with
  | prim p => cases p <;> exact pure _
  | inferred => exact fail _
  | array element size =>
    exact (Reports.mapM h.default _).bind fun _ => of_local (.newArray _ _)
  | vararg element => exact of_local (.newArray _ _)
  | data name => exact h.instantiateData name []
  | enum name => exact (read _).bind fun _ => (require _ _).bind fun _ => require _ _

theorem iterationValues (iterable : Expr) :
    Reports parts fun ν => (r ν).iterationValues iterable := by
  have hwalk : Reports parts fun ν => (r ν).eval none iterable >>= Run.elementsOf :=
    (h.eval none iterable).bind fun v => of_local (.elementsOf v)
  simp only [Evaluator.iterationValues]
  cases iterable.kind with
  | type written =>
    refine (h.resolveType written).bind fun t => ?_
    cases t with
    | enum name => exact (read _).bind fun _ => (require _ _).bind fun _ => pure _
    | _ => exact hwalk
  | _ => exact hwalk

end Composites

section Declarations

/-! ## Declarations -/

theorem bind (name : String) (t : Ty) (v : Value) (constant : Bool) :
    Reports parts fun _ => Evaluator.bind name t v constant :=
  (of_local (bindingType_local v t)).bind fun _ => (Reports.conform _ _).bind fun _ =>
    (Reports.declareVariable _ _).bind fun _ => pure _

variable (h : Reporting r)

include h

theorem bindEach (constant : Bool) (names : List (String × TypeExpr)) (vs : List Value) :
    Reports parts fun ν => (r ν).bindEach constant names vs := by
  induction names generalizing vs with
  | nil => exact pure _
  | cons n names ih =>
    cases vs with
    | nil => exact pure _
    | cons v vs => exact (h.resolveType _).bind fun _ => (bind _ _ v _).bind fun _ => ih vs

theorem bindAll (names : List (String × TypeExpr)) (vs : List Value) (constant : Bool) :
    Reports parts fun ν => (r ν).bindAll names vs constant :=
  .guarded _ (h.bindEach constant names vs)

theorem declareVariable (name : String) (written : TypeExpr) (init : Expr) (constant : Bool) :
    Reports parts fun ν => (r ν).declareVariable name written init constant := by
  refine (h.resolveType written).bind fun t => (h.eval _ init).bind fun v => ?_
  refine .ite (.ite ((fail _).atSpan _) ?_) (bind _ _ _ _)
  exact (h.default t).bind fun _ => bind _ _ _ _

theorem parameters (params : List Param) : Reports parts fun ν => (r ν).parameters params :=
  .mapM (fun p => (h.resolveType p.type).bind fun _ => pure _) params

theorem returnType (written : TypeExpr) : Reports parts fun ν => (r ν).returnType written := by
  cases written with
  | inferred => exact pure _
  | _ => exact h.resolveType _

theorem requireNative (signature : String) (returns : Ty) :
    Reports parts fun ν => (r ν).requireNative signature returns := by
  simp only [Evaluator.requireNative, h.library]
  exact (require _ _).bind fun _ => (fail _).ite (pure _)

theorem declareSub (d : SubDef) : Reports parts fun ν => (r ν).declareSub d := by
  refine (h.parameters d.params).bind fun params => (h.returnType d.returns).bind fun returns => ?_
  have hdeclare : ∀ signature, Reports parts fun _ => (do
      let scope ← Run.read fun s => s.env.current
      let sub : Sub := ⟨d.name, params, returns, d.body, signature, scope, d.builtin⟩
      Run.declare .sub signature (·.takesSub d.name signature) (·.addSub sub) : Run Unit) :=
    fun _ => (read _).bind fun _ => Reports.declare _ _ _ _
  exact .ite ((h.requireNative _ returns).bind fun _ => hdeclare _) (hdeclare _)

theorem declareData (name : String) (fields : List FieldDef) :
    Reports parts fun ν => (r ν).declareData name fields := by
  have hfields : Reports parts fun ν => fields.mapM fun f => do
      return (⟨f.name, ← (r ν).resolveType f.type, f.constant, f.default⟩ : Field) :=
    Reports.mapM (fun f => (h.resolveType f.type).bind fun _ => pure _) fields
  exact hfields.bind fun _ => (read _).bind fun _ => Reports.declare _ _ _ _

theorem declareAlias (name : String) (written : TypeExpr) :
    Reports parts fun ν => (r ν).declareAlias name written :=
  (h.resolveType written).bind fun _ => Reports.declare _ _ _ _

theorem ordinalValue (t : Ty) (ordinal : Nat) :
    Reports parts fun ν => (r ν).ordinalValue t ordinal := by
  cases t with
  | inferred => exact pure _
  | prim p =>
    simp only [Evaluator.ordinalValue, Ty.kind?]
    cases p.kind? with
    | some k => exact (pure _).ite (h.default _)
    | none => exact h.default _
  | _ => exact h.default _

theorem entryElement (t : Ty) (ordinal : Nat) (elements : List Expr) :
    Reports parts fun ν => (r ν).entryElement t ordinal elements := by
  cases elements with
  | nil => exact h.ordinalValue t ordinal
  | cons e rest => exact h.eval _ e

theorem basicEntry (t : Ty) (ordinal : Nat) (elements : List Expr) :
    Reports parts fun ν => (r ν).basicEntry t ordinal elements := by
  refine (h.entryElement t ordinal elements).bind fun v => ?_
  cases t with
  | inferred => exact (fail _).ite (pure _)
  | _ => exact Reports.conform _ _

omit h in
theorem entryValues {value : Notes → Nat → List Expr → Run Value}
    (hvalue : ∀ ordinal elements, Reports parts fun ν => value ν ordinal elements)
    (ordinal : Nat) (entries : List EntryDef) :
    Reports parts fun ν => Evaluator.entryValues (value ν) ordinal entries := by
  induction entries generalizing ordinal with
  | nil => exact pure _
  | cons e rest ih => exact (hvalue _ _).bind fun _ => (ih _).bind fun _ => pure _

theorem enumEntries (kind : EnumKind) (entries : List EntryDef) :
    Reports parts fun ν => (r ν).enumEntries kind entries := by
  cases kind with
  | basic written =>
    refine (h.resolveType written).bind fun t => ?_
    exact (entryValues (h.basicEntry t) 0 entries).bind fun _ => pure _
  | data data =>
    refine (h.resolveType (.named data)).bind fun t => ?_
    exact (entryValues (fun _ elements => h.instantiate t elements) 0 entries).bind fun _ => pure _

theorem declareEnum (name : String) (kind : EnumKind) (entries : List EntryDef) :
    Reports parts fun ν => (r ν).declareEnum name kind entries :=
  (h.enumEntries kind entries).bind fun _ => Reports.declare _ _ _ _

end Declarations

section Statements

/-! ## Statements -/

variable (h : Reporting r)

include h

theorem test (e : Expr) : Reports parts fun ν => (r ν).test e := by
  refine (h.eval none e).bind fun v => ?_
  cases v with
  | bool b => exact pure _
  | _ => exact ((Reports.typeOf _).bind fun _ => fail _).atSpan _

theorem branches {otherwise : Option (List Stmt)} {bs : List Branch}
    (hotherwise : otherwise.getD [] ⊆ parts)
    (hbs : ∀ test body, .mk test body ∈ bs → body ⊆ parts) :
    Reports parts fun ν => (r ν).branches otherwise bs := by
  induction bs with
  | nil =>
    cases otherwise with
    | none => exact pure _
    | some body => exact h.scopedBlock hotherwise
  | cons branch rest ih =>
    obtain ⟨test, body⟩ := branch
    refine (h.test test).bind fun _ => (h.scopedBlock (hbs test body List.mem_cons_self)).ite ?_
    exact ih fun t b hb => hbs t b (List.mem_cons_of_mem _ hb)

theorem anyEqual (subject : Value) (values : List Expr) :
    Reports parts fun ν => (r ν).anyEqual subject values := by
  induction values with
  | nil => exact pure _
  | cons e rest ih =>
    exact (h.eval none e).bind fun _ => (of_local (.equalEnds _ _)).bind fun _ =>
      (read _).bind fun _ => (pure _).ite ih

theorem caseMatches (subject : Value) (test : CaseTest) :
    Reports parts fun ν => (r ν).caseMatches subject test := by
  cases test with
  | values values => exact h.anyEqual subject values
  | type written inverted => exact (h.resolveType written).bind fun _ => read _
  | otherwise => exact pure _

theorem cases (label : Option String) (subject : Value) {cs : List Case}
    (hcs : ∀ test body, .mk test body ∈ cs → body ⊆ parts) :
    Reports parts fun ν => (r ν).cases label subject cs := by
  induction cs with
  | nil => exact pure _
  | cons first rest ih =>
    obtain ⟨test, body⟩ := first
    have hrest := ih fun t b hb => hcs t b (List.mem_cons_of_mem _ hb)
    refine (h.caseMatches subject test).bind fun _ => .ite ?_ hrest
    refine (h.scopedBlock (hcs test body List.mem_cons_self)).bind fun flow => ?_
    cases flow.caseStep label with
    | onward => exact hrest
    | _ => exact pure _

variable (label : Option String)

theorem whileStep (test : Expr) (hbody : body ⊆ parts) :
    Reports parts fun ν => (r ν).whileStep label test body :=
  (h.test test).bind fun _ => ((h.scopedBlock hbody).bind fun _ => pure _).ite (pure _)

theorem untilStep (test : Expr) (hbody : body ⊆ parts) :
    Reports parts fun ν => (r ν).untilStep label test body := by
  refine (h.scopedBlock hbody).bind fun flow => ?_
  cases flow.loopStep label with
  | again => exact (h.test test).bind fun _ => pure _
  | _ => exact pure _

theorem countStep (test increment : Expr) (hbody : body ⊆ parts) :
    Reports parts fun ν => (r ν).countStep label test increment body := by
  refine (h.whileStep label test hbody).bind fun step => ?_
  cases step with
  | again => exact (h.eval none increment).bind fun _ => pure _
  | _ => exact pure _

theorem countLoop (name : String) (type : TypeExpr) (start limit : Expr) (step : Option Expr)
    (hbody : body ⊆ parts) :
    Reports parts fun ν => (r ν).countLoop label name type start limit step body :=
  .inScope <| (h.resolveType type).bind fun _ => (h.eval _ start).bind fun _ =>
    (bind _ _ _ _).bind fun _ => h.loop (h.countStep label _ _ hbody)

theorem eachStep (name : String) (t : Ty) (hbody : body ⊆ parts) (v : Value) :
    Reports parts fun ν => (r ν).eachStep label name t body v :=
  ((bind _ _ _ _).bind fun _ => h.block hbody).inScope.bind fun _ => pure _

theorem eachOfStep (names : List (String × TypeExpr)) (hbody : body ⊆ parts) (v : Value) :
    Reports parts fun ν => (r ν).eachOfStep label names body v :=
  (of_local (.elementsOf v)).bind fun _ =>
    ((h.bindAll _ _ _).bind fun _ => h.block hbody).inScope.bind fun _ => pure _

omit label in
/-- An error leaves, of the statements that a form executes itself, those of its blocks. -/
theorem stmtKind (kind : StmtKind) : Reports kind.parts fun ν => (r ν).stmtKind kind := by
  cases kind with
  | none => exact pure _
  | expression e => exact (h.eval none e).bind fun _ => pure _
  | declare name type init constant =>
    exact (h.declareVariable name type init constant).bind fun _ => pure _
  | declareEach names init constant =>
    exact (h.eval none init).bind fun _ => (of_local (.elementsOf _)).bind fun _ =>
      (h.bindAll names _ constant).bind fun _ => pure _
  | block body => exact h.scopedBlock (List.Subset.refl body)
  | doBlock label body => exact (h.scopedBlock (List.Subset.refl body)).bind fun _ => pure _
  | ifElse bs otherwise =>
    refine h.branches (List.subset_append_right _ _) fun test body hb s hs => ?_
    exact List.mem_append_left _ (List.mem_flatMap.mpr ⟨_, hb, hs⟩)
  | switch label subject cs =>
    refine (h.eval none subject).bind fun v => h.cases label v fun test body hc s hs => ?_
    exact List.mem_flatMap.mpr ⟨_, hc, hs⟩
  | whileLoop label test body => exact h.loop (h.whileStep label test (List.Subset.refl body))
  | untilLoop label test body => exact h.loop (h.untilStep label test (List.Subset.refl body))
  | forCount label name type start limit step body =>
    exact h.countLoop label name type start limit step (List.Subset.refl body)
  | forEach label name type iterable body =>
    refine (h.resolveType type).bind fun t => (h.iterationValues iterable).bind fun vs => ?_
    exact Reports.forValues (h.eachStep label name t (List.Subset.refl body)) vs
  | forEachOf label names iterable body =>
    refine (h.iterationValues iterable).bind fun vs => ?_
    exact Reports.forValues (h.eachOfStep label names (List.Subset.refl body)) vs
  | data name fields => exact (h.declareData name fields).bind fun _ => pure _
  | sub d => exact (h.declareSub d).bind fun _ => pure _
  | «alias» name type => exact (h.declareAlias name type).bind fun _ => pure _
  | enum name kind entries => exact (h.declareEnum name kind entries).bind fun _ => pure _
  | breakTo label => exact pure _
  | nextTo label => exact pure _
  | leave => exact pure _
  | yield e => exact (read _).bind fun _ => (h.eval _ e).bind fun _ => pure _

end Statements

end Evaluator.Reporting

end BasicScript
