import BasicScript.Eval.Stmt
import BasicScript.Proofs.Core.Run

/-! # Statements and the status of the core declarations

What is built, looked up, tested, declared or executed by rules that leave the
status as it is leaves it as it is.
-/

namespace BasicScript

namespace Evaluator.KeepsCore

open Run.KeepsCore (of_local pure fail read require mapM)

variable {r : Evaluator}

theorem block (h : r.KeepsCore) (body : List Stmt) : (r.block body).KeepsCore := by
  induction body with
  | nil => exact pure _
  | cons stmt rest ih =>
    refine (h.exec stmt).bind fun flow => ?_
    cases flow
    · exact ih
    · exact pure _

theorem scopedBlock (h : r.KeepsCore) (body : List Stmt) : (r.scopedBlock body).KeepsCore :=
  (h.block body).inScope

theorem arraySize (h : r.KeepsCore) (size : Expr) : (r.arraySize size).KeepsCore := by
  refine (h.eval none size).bind fun v => ?_
  split
  · exact pure _
  · exact .failOn _ _

theorem resolveType (h : r.KeepsCore) (written : TypeExpr) :
    (r.resolveType written).KeepsCore := by
  fun_induction Evaluator.resolveType r written with
  | case1 => exact pure _
  | case2 p => exact pure _
  | case3 element ih => exact ih.bind fun _ => pure _
  | case4 element size ih => exact ih.bind fun _ => (h.arraySize size).bind fun _ => pure _
  | case5 element ih => exact ih.bind fun _ => pure _
  | case6 name => exact (read _).bind fun _ => require _ _

theorem suppliedValue (h : r.KeepsCore) (t : Ty) (element : Option Expr) :
    (r.suppliedValue t element).KeepsCore := by
  cases element
  · exact pure _
  · exact h.eval _ _

theorem fieldValue (h : r.KeepsCore) (scope : ScopePath) (field : Field)
    (element : Option Expr) : (r.fieldValue scope field element).KeepsCore := by
  refine (h.suppliedValue _ _).bind fun supplied => .ite ?_ (pure _)
  split
  · exact (h.eval _ _).inLiveScope scope
  · exact h.default _

theorem fieldCells (h : r.KeepsCore) (scope : ScopePath) (fields : List Field)
    (elements : List Expr) : (r.fieldCells scope fields elements).KeepsCore := by
  induction fields generalizing elements with
  | nil => exact pure _
  | cons field fields ih =>
    exact (h.fieldValue scope field _).bind fun _ => (of_local (.conform _ _)).bind fun _ =>
      (of_local (.newCell _)).bind fun _ => (ih _).bind fun _ => pure _

theorem instantiateData (h : r.KeepsCore) (name : String) (elements : List Expr) :
    (r.instantiateData name elements).KeepsCore := by
  refine (read _).bind fun found => (require _ found).bind fun decl => ?_
  have hcells := (h.fieldCells decl.scope decl.fields elements).bind fun cells =>
    pure (Value.data decl cells)
  exact .ite ((fail _).bind fun _ => hcells) hcells

theorem instantiateArray (h : r.KeepsCore) (element : Ty) (size : Option Nat)
    (elements : List Expr) : (r.instantiateArray element size elements).KeepsCore := by
  have hgiven := mapM (fun e => (h.eval element.hint? e).bind fun v =>
    of_local (.conform element v)) elements
  have hbuild := hgiven.bind fun given => (mapM h.default
    (List.replicate (size.getD elements.length - elements.length) element)).bind fun filler =>
      of_local (.newArray element (given ++ filler))
  exact .ite ((fail _).bind fun _ => hbuild) hbuild

theorem instantiate (h : r.KeepsCore) (t : Ty) (elements : List Expr) :
    (r.instantiate t elements).KeepsCore := by
  unfold Evaluator.instantiate
  split
  · exact h.instantiateData _ _
  · exact h.instantiateArray _ _ _
  · exact h.instantiateArray _ _ _
  · exact fail _

theorem arrayLiteral (h : r.KeepsCore) (hint : Option Ty) (elements : List Expr) :
    (r.arrayLiteral hint elements).KeepsCore := by
  refine (mapM (fun e => ?_) _).bind fun typed =>
    (mapM (fun p => of_local (.conform _ _)) _).bind fun _ => of_local (.newArray _ _)
  exact (h.eval hint e).bind fun v => (of_local (.typeOf v)).bind fun _ =>
    (require _ _).bind fun _ => pure _

theorem defaultValue (h : r.KeepsCore) (t : Ty) : (r.defaultValue t).KeepsCore := by
  unfold Evaluator.defaultValue
  split
  · exact pure _
  · exact pure _
  · exact pure _
  · exact pure _
  · exact pure _
  · split
    · exact pure _
    · exact fail _
  · exact fail _
  · exact (mapM h.default _).bind fun _ => of_local (.newArray _ _)
  · exact of_local (.newArray _ _)
  · exact h.instantiateData _ _
  · exact (read _).bind fun _ => (require _ _).bind fun _ => require _ _

theorem iterationValues (h : r.KeepsCore) (iterable : Expr) :
    (r.iterationValues iterable).KeepsCore := by
  have hvalue := (h.eval none iterable).bind fun v => of_local (.elementsOf v)
  unfold Evaluator.iterationValues
  split
  · refine (h.resolveType _).bind fun t => ?_
    split
    · exact (read _).bind fun _ => (require _ _).bind fun _ => pure _
    · exact hvalue
  · exact hvalue

theorem test (h : r.KeepsCore) (e : Expr) : (r.test e).KeepsCore := by
  refine (h.eval _ _).bind fun v => ?_
  split
  · exact pure _
  · exact ((of_local (.typeOf _)).bind fun _ => fail _).atSpan _

theorem branches (h : r.KeepsCore) (otherwise : Option (List Stmt)) (bs : List Branch) :
    (r.branches otherwise bs).KeepsCore := by
  induction bs with
  | nil =>
    cases otherwise
    · exact pure _
    · exact h.scopedBlock _
  | cons b rest ih =>
    obtain ⟨test, body⟩ := b
    exact (h.test test).bind fun _ => .ite (h.scopedBlock body) ih

theorem anyEqual (h : r.KeepsCore) (subject : Value) (values : List Expr) :
    (r.anyEqual subject values).KeepsCore := by
  induction values with
  | nil => exact pure _
  | cons e rest ih =>
    exact (h.eval _ _).bind fun _ => (of_local (.equalEnds _ _)).bind fun _ =>
      (read _).bind fun _ => .ite (pure _) ih

theorem caseMatches (h : r.KeepsCore) (subject : Value) (test : CaseTest) :
    (r.caseMatches subject test).KeepsCore := by
  cases test with
  | values values => exact h.anyEqual subject values
  | type written inverted => exact (h.resolveType written).bind fun _ => read _
  | otherwise => exact pure _

theorem cases (h : r.KeepsCore) (label : Option String) (subject : Value) (cs : List Case) :
    (r.cases label subject cs).KeepsCore := by
  induction cs with
  | nil => exact pure _
  | cons case rest ih =>
    obtain ⟨test, body⟩ := case
    refine (h.caseMatches subject test).bind fun _ => .ite ?_ ih
    refine (h.scopedBlock body).bind fun flow => ?_
    split
    · exact pure _
    · exact ih
    · exact pure _

theorem whileStep (h : r.KeepsCore) (label : Option String) (test : Expr) (body : List Stmt) :
    (r.whileStep label test body).KeepsCore :=
  (h.test test).bind fun _ => .ite ((h.scopedBlock body).bind fun _ => pure _) (pure _)

theorem untilStep (h : r.KeepsCore) (label : Option String) (test : Expr) (body : List Stmt) :
    (r.untilStep label test body).KeepsCore := by
  refine (h.scopedBlock body).bind fun flow => ?_
  split
  · exact (h.test test).bind fun _ => pure _
  · exact pure _

theorem countStep (h : r.KeepsCore) (label : Option String) (test increment : Expr)
    (body : List Stmt) : (r.countStep label test increment body).KeepsCore := by
  refine (h.whileStep label test body).bind fun step => ?_
  split
  · exact (h.eval _ _).bind fun _ => pure _
  · exact pure _

theorem bind (name : String) (t : Ty) (v : Value) (constant : Bool) :
    (Evaluator.bind name t v constant).KeepsCore :=
  (of_local (bindingType_local v t)).bind fun _ => (of_local (.conform _ _)).bind fun _ =>
    (Run.KeepsCore.declareVariable _ _).bind fun _ => pure _

theorem bindEach (h : r.KeepsCore) (constant : Bool) (names : List (String × TypeExpr))
    (vs : List Value) : (r.bindEach constant names vs).KeepsCore := by
  induction names generalizing vs with
  | nil => exact pure _
  | cons n names ih =>
    cases vs with
    | nil => exact pure _
    | cons v vs => exact (h.resolveType _).bind fun _ => (bind _ _ _ _).bind fun _ => ih vs

theorem bindAll (h : r.KeepsCore) (names : List (String × TypeExpr)) (vs : List Value)
    (constant : Bool) : (r.bindAll names vs constant).KeepsCore :=
  .ite ((fail _).bind fun _ => h.bindEach _ _ _) (h.bindEach _ _ _)

theorem declareVariable (h : r.KeepsCore) (name : String) (written : TypeExpr) (init : Expr)
    (constant : Bool) : (r.declareVariable name written init constant).KeepsCore := by
  refine (h.resolveType written).bind fun t => (h.eval _ _).bind fun v => ?_
  refine .ite (.ite ((fail _).atSpan _) ?_) (bind _ _ _ _)
  exact (h.default t).bind fun _ => bind _ _ _ _

theorem returnType (h : r.KeepsCore) (written : TypeExpr) :
    (r.returnType written).KeepsCore := by
  unfold Evaluator.returnType
  split
  · exact pure _
  · exact h.resolveType _

theorem declareSub (h : r.KeepsCore) (d : SubDef) : (r.declareSub d).KeepsCore := by
  refine (mapM (fun p => (h.resolveType p.type).bind fun _ => pure _) d.params).bind fun params =>
    (h.returnType d.returns).bind fun returns => ?_
  refine .ite (.bind ?_ fun _ => ?_) ?_
  · exact (require _ _).bind fun _ => .ite (fail _) (pure _)
  · exact (read _).bind fun _ => .declare _ _ _ _
  · exact (read _).bind fun _ => .declare _ _ _ _

theorem declareData (h : r.KeepsCore) (name : String) (fields : List FieldDef) :
    (r.declareData name fields).KeepsCore := by
  refine (mapM (fun f => ?_) fields).bind fun _ => (read _).bind fun _ => .declare _ _ _ _
  exact (h.resolveType f.type).bind fun _ => pure _

theorem declareAlias (h : r.KeepsCore) (name : String) (written : TypeExpr) :
    (r.declareAlias name written).KeepsCore :=
  (h.resolveType written).bind fun _ => .declare _ _ _ _

theorem ordinalValue (h : r.KeepsCore) (t : Ty) (ordinal : Nat) :
    (r.ordinalValue t ordinal).KeepsCore := by
  unfold Evaluator.ordinalValue
  split
  · exact pure _
  · split
    · exact .ite (pure _) (h.default _)
    · exact h.default _

theorem basicEntry (h : r.KeepsCore) (t : Ty) (ordinal : Nat) (elements : List Expr) :
    (r.basicEntry t ordinal elements).KeepsCore := by
  have helement : (r.entryElement t ordinal elements).KeepsCore := by
    cases elements
    · exact h.ordinalValue _ _
    · exact h.eval _ _
  refine helement.bind fun v => ?_
  split
  · exact .ite (fail _) (pure _)
  · exact of_local (.conform _ _)

theorem entryValues {value : Nat → List Expr → Run Value}
    (h : ∀ ordinal elements, (value ordinal elements).KeepsCore) (ordinal : Nat)
    (entries : List EntryDef) : (Evaluator.entryValues value ordinal entries).KeepsCore := by
  induction entries generalizing ordinal with
  | nil => exact pure _
  | cons e rest ih => exact (h _ _).bind fun _ => (ih _).bind fun _ => pure _

theorem declareEnum (h : r.KeepsCore) (name : String) (kind : EnumKind)
    (entries : List EntryDef) : (r.declareEnum name kind entries).KeepsCore := by
  have hentries : (r.enumEntries kind entries).KeepsCore := by
    cases kind with
    | basic written =>
      exact (h.resolveType written).bind fun t =>
        (entryValues (h.basicEntry t) 0 entries).bind fun _ => pure _
    | data data =>
      exact (h.resolveType _).bind fun t =>
        (entryValues (fun _ elements => h.instantiate t elements) 0 entries).bind fun _ => pure _
  exact hentries.bind fun _ => .declare _ _ _ _

theorem countLoop (h : r.KeepsCore) (label : Option String) (name : String) (type : TypeExpr)
    (start limit : Expr) (step : Option Expr) (body : List Stmt) :
    (r.countLoop label name type start limit step body).KeepsCore :=
  Run.KeepsCore.inScope <| (h.resolveType type).bind fun _ => (h.eval _ _).bind fun _ =>
    (bind _ _ _ _).bind fun _ => (h.countStep _ _ _ _).loop _

theorem eachStep (h : r.KeepsCore) (label : Option String) (name : String) (t : Ty)
    (body : List Stmt) (v : Value) : (r.eachStep label name t body v).KeepsCore :=
  ((bind _ _ _ _).bind fun _ => h.block body).inScope.bind fun _ => pure _

theorem eachOfStep (h : r.KeepsCore) (label : Option String) (names : List (String × TypeExpr))
    (body : List Stmt) (v : Value) : (r.eachOfStep label names body v).KeepsCore :=
  (of_local (.elementsOf v)).bind fun _ =>
    ((h.bindAll _ _ _).bind fun _ => h.block body).inScope.bind fun _ => pure _

theorem stmtKind (h : r.KeepsCore) (kind : StmtKind) : (r.stmtKind kind).KeepsCore := by
  cases kind with
  | none => exact pure _
  | expression e => exact (h.eval _ _).bind fun _ => pure _
  | declare name type init constant => exact (h.declareVariable _ _ _ _).bind fun _ => pure _
  | declareEach names init constant =>
    exact (h.eval _ _).bind fun v => (of_local (.elementsOf v)).bind fun _ =>
      (h.bindAll _ _ _).bind fun _ => pure _
  | block body => exact h.scopedBlock body
  | doBlock label body => exact (h.scopedBlock body).bind fun _ => pure _
  | ifElse bs otherwise => exact h.branches otherwise bs
  | switch label subject cs => exact (h.eval _ _).bind fun _ => h.cases _ _ _
  | whileLoop label test body => exact (h.whileStep _ _ _).loop _
  | untilLoop label test body => exact (h.untilStep _ _ _).loop _
  | forCount label name type start limit step body => exact h.countLoop _ _ _ _ _ _ _
  | forEach label name type iterable body =>
    exact (h.resolveType _).bind fun t => (h.iterationValues _).bind fun _ =>
      .forValues (h.eachStep label name t body) _
  | forEachOf label names iterable body =>
    exact (h.iterationValues _).bind fun _ => .forValues (h.eachOfStep label names body) _
  | data name fields => exact (h.declareData _ _).bind fun _ => pure _
  | sub d => exact (h.declareSub d).bind fun _ => pure _
  | breakTo label => exact pure _
  | nextTo label => exact pure _
  | leave => exact pure _
  | yield value => exact (read _).bind fun _ => (h.eval _ _).bind fun _ => pure _
  | «alias» name type => exact (h.declareAlias _ _).bind fun _ => pure _
  | enum name kind entries => exact (h.declareEnum _ _ _).bind fun _ => pure _

theorem stmt (h : r.KeepsCore) (s : Stmt) : (r.stmt s).KeepsCore := (h.stmtKind s.kind).traced _ _

end Evaluator.KeepsCore

end BasicScript
