import BasicScript.Eval.Stmt
import BasicScript.Proofs.Frame.Run

/-! # Frames of composites, declarations and statements

Evaluators that track each other give rules that track each other. What is
built, looked up or tested is a closed frame; declarations are open ones, and
a statement that runs others in a scope of its own is closed again.
-/

namespace BasicScript

/-- One evaluator is cut short at most where another goes on. -/
structure Evaluator.Precedes (ρ : Option (List Ty)) (c : Prop) (r r' : Evaluator) : Prop where
  library : r.library = r'.library
  rounds : r.rounds = r'.rounds ∨ c ∧ r.rounds ≤ r'.rounds
  eval : ∀ hint e, Run.Tracks ρ c False (r.eval hint e) (r'.eval hint e)
  exec : ∀ s, Run.Tracks ρ c True (r.exec s) (r'.exec s)
  default : ∀ t, Run.Tracks ρ c False (r.default t) (r'.default t)
  invoke : ∀ name args, Run.Tracks ρ c False (r.invoke name args) (r'.invoke name args)

namespace Run.Tracks

variable {ρ : Option (List Ty)} {c o : Prop}

/-- What the second run does, compared with itself. -/
theorem right {α : Type} {x y : Run α} (h : Tracks ρ c o x y) : Tracks ρ c o y y :=
  fun s hs => ⟨(h s hs).1, .inl rfl⟩

theorem loop {x y : Run LoopStep} (h : Tracks ρ c o x y) {n m : Nat} (hnm : n = m ∨ c ∧ n ≤ m) :
    Tracks ρ c o (Run.loop x n) (Run.loop y m) := by
  induction m generalizing n x with
  | zero =>
    obtain rfl : n = 0 := by omega
    exact still fun _ => rfl
  | succ m ih =>
    cases n with
    | zero =>
      obtain ⟨hc, -⟩ := hnm.resolve_left (Nat.succ_ne_zero m).symm
      have hy : Tracks ρ c o (Run.loop y (m + 1)) (Run.loop y (m + 1)) :=
        h.right.bind fun step => by
          cases step
          · exact ih h.right (.inl rfl)
          · exact pure _
          · exact pure _
      exact fun s hs => ⟨(hy s hs).1, .inr ⟨hc, s, rfl, (hy s hs).1.grows⟩⟩
    | succ n =>
      refine h.bind fun step => ?_
      cases step
      · exact ih h (hnm.imp (fun h => Nat.succ.inj h) fun h => ⟨h.1, Nat.le_of_succ_le_succ h.2⟩)
      · exact pure _
      · exact pure _

theorem forValues {x y : Value → Run LoopStep} (h : ∀ v, Tracks ρ c o (x v) (y v))
    (vs : List Value) : Tracks ρ c o (Run.forValues x vs) (Run.forValues y vs) := by
  induction vs with
  | nil => exact pure _
  | cons v vs ih =>
    refine (h v).bind fun step => ?_
    cases step
    · exact ih
    · exact pure _
    · exact pure _

end Run.Tracks

namespace Evaluator.Precedes

open Run (Tracks)
open Run.Tracks (read require pure fail failOn)

variable {ρ : Option (List Ty)} {c o : Prop} {r r' : Evaluator}

theorem block (h : r.Precedes ρ c r') (body : List Stmt) :
    Tracks ρ c True (r.block body) (r'.block body) := by
  induction body with
  | nil => exact pure _
  | cons stmt rest ih =>
    refine (h.exec stmt).bind fun flow => ?_
    cases flow
    · exact ih
    · exact pure _

theorem scopedBlock (h : r.Precedes ρ c r') (body : List Stmt) :
    Tracks ρ c o (r.scopedBlock body) (r'.scopedBlock body) :=
  (h.block body).inScope.opened

theorem arraySize (h : r.Precedes ρ c r') (size : Expr) :
    Tracks ρ c o (r.arraySize size) (r'.arraySize size) := by
  refine (h.eval none size).opened.bind fun v => ?_
  split
  · exact pure _
  · exact failOn _ _

theorem resolveType (h : r.Precedes ρ c r') (written : TypeExpr) :
    Tracks ρ c o (r.resolveType written) (r'.resolveType written) := by
  fun_induction Evaluator.resolveType r written with
  | case1 => exact pure _
  | case2 p => exact pure _
  | case3 element ih => exact ih.bind fun _ => pure _
  | case4 element size ih => exact ih.bind fun _ => (h.arraySize size).bind fun _ => pure _
  | case5 element ih => exact ih.bind fun _ => pure _
  | case6 name => exact (read _).bind fun _ => require _ _

theorem suppliedValue (h : r.Precedes ρ c r') (t : Ty) (element : Option Expr) :
    Tracks ρ c o (r.suppliedValue t element) (r'.suppliedValue t element) := by
  cases element
  · exact pure _
  · exact (h.eval _ _).opened

theorem fieldValue (h : r.Precedes ρ c r') (scope : ScopePath) (field : Field)
    (element : Option Expr) :
    Tracks ρ c o (r.fieldValue scope field element) (r'.fieldValue scope field element) := by
  refine (h.suppliedValue _ _).bind fun supplied => Run.Tracks.ite ?_ (pure _)
  split
  · exact ((h.eval _ _).inLiveScope scope).opened
  · exact (h.default _).opened

theorem fieldCells (h : r.Precedes ρ c r') (scope : ScopePath) (fields : List Field)
    (elements : List Expr) :
    Tracks ρ c o (r.fieldCells scope fields elements) (r'.fieldCells scope fields elements) := by
  induction fields generalizing elements with
  | nil => exact pure _
  | cons field fields ih =>
    exact (h.fieldValue scope field _).bind fun _ => (Run.Tracks.conform _ _).bind fun _ =>
      (Run.Tracks.newCell _).bind fun _ => (ih _).bind fun _ => pure _

theorem instantiateData (h : r.Precedes ρ c r') (name : String) (elements : List Expr) :
    Tracks ρ c o (r.instantiateData name elements) (r'.instantiateData name elements) := by
  refine (read _).bind fun found => (require _ found).bind fun decl => ?_
  exact Run.Tracks.ite ((fail _).bind fun _ => (h.fieldCells _ _ _).bind fun _ => pure _)
    ((h.fieldCells _ _ _).bind fun _ => pure _)

theorem instantiateArray (h : r.Precedes ρ c r') (element : Ty) (size : Option Nat)
    (elements : List Expr) :
    Tracks ρ c o (r.instantiateArray element size elements)
      (r'.instantiateArray element size elements) := by
  have hbuild : Tracks ρ c o
      (do
        let given ← elements.mapM fun e => do Run.conform element (← r.eval element.hint? e)
        let filler ← (List.replicate (size.getD elements.length - elements.length)
          element).mapM r.default
        Run.newArray element (given ++ filler))
      (do
        let given ← elements.mapM fun e => do Run.conform element (← r'.eval element.hint? e)
        let filler ← (List.replicate (size.getD elements.length - elements.length)
          element).mapM r'.default
        Run.newArray element (given ++ filler)) :=
    (Run.Tracks.mapM (fun e => (h.eval _ e).opened.bind fun _ => Run.Tracks.conform _ _) _).bind
      fun _ => (Run.Tracks.mapM (fun t => (h.default t).opened) _).bind fun _ =>
        Run.Tracks.newArray _ _
  exact Run.Tracks.ite ((fail _).bind fun _ => hbuild) hbuild

theorem instantiate (h : r.Precedes ρ c r') (t : Ty) (elements : List Expr) :
    Tracks ρ c o (r.instantiate t elements) (r'.instantiate t elements) := by
  unfold Evaluator.instantiate
  split
  · exact h.instantiateData _ _
  · exact h.instantiateArray _ _ _
  · exact h.instantiateArray _ _ _
  · exact fail _

theorem arrayLiteral (h : r.Precedes ρ c r') (hint : Option Ty) (elements : List Expr) :
    Tracks ρ c o (r.arrayLiteral hint elements) (r'.arrayLiteral hint elements) := by
  refine (Run.Tracks.mapM (fun e => ?_) _).bind fun typed =>
    (Run.Tracks.mapM (fun p => Run.Tracks.conform _ _) _).bind fun _ => Run.Tracks.newArray _ _
  exact (h.eval hint e).opened.bind fun v => (Run.Tracks.typeOf v).bind fun _ =>
    (require _ _).bind fun _ => pure _

theorem defaultValue (h : r.Precedes ρ c r') (t : Ty) :
    Tracks ρ c o (r.defaultValue t) (r'.defaultValue t) := by
  unfold Evaluator.defaultValue
  split
  · exact pure _
  · exact pure _
  · exact pure _
  · exact pure _
  · exact pure _
  · split
    · exact pure _
    · exact fail _
  · exact fail _
  · exact (Run.Tracks.mapM (fun t => (h.default t).opened) _).bind fun _ =>
      Run.Tracks.newArray _ _
  · exact Run.Tracks.newArray _ _
  · exact h.instantiateData _ _
  · exact (read _).bind fun _ => (require _ _).bind fun _ => require _ _

theorem iterationValues (h : r.Precedes ρ c r') (iterable : Expr) :
    Tracks ρ c o (r.iterationValues iterable) (r'.iterationValues iterable) := by
  unfold Evaluator.iterationValues
  split
  · refine (h.resolveType _).bind fun t => ?_
    split
    · exact (read _).bind fun _ => (require _ _).bind fun _ => pure _
    · exact (h.eval _ _).opened.bind fun _ => Run.Tracks.elementsOf _
  · exact (h.eval _ _).opened.bind fun _ => Run.Tracks.elementsOf _

theorem test (h : r.Precedes ρ c r') (e : Expr) : Tracks ρ c o (r.test e) (r'.test e) := by
  refine (h.eval _ _).opened.bind fun v => ?_
  split
  · exact pure _
  · exact ((Run.Tracks.typeOf _).bind fun _ => fail _).atSpan _

theorem branches (h : r.Precedes ρ c r') (otherwise : Option (List Stmt)) (bs : List Branch) :
    Tracks ρ c o (r.branches otherwise bs) (r'.branches otherwise bs) := by
  induction bs with
  | nil =>
    cases otherwise
    · exact pure _
    · exact h.scopedBlock _
  | cons b rest ih =>
    obtain ⟨test, body⟩ := b
    exact (h.test test).bind fun _ => (h.scopedBlock body).ite ih

theorem anyEqual (h : r.Precedes ρ c r') (subject : Value) (values : List Expr) :
    Tracks ρ c o (r.anyEqual subject values) (r'.anyEqual subject values) := by
  induction values with
  | nil => exact pure _
  | cons e rest ih =>
    exact (h.eval _ _).opened.bind fun _ => (Tracks.ending _).bind fun _ =>
      (read _).bind fun _ => (pure _).ite ih

theorem caseMatches (h : r.Precedes ρ c r') (subject : Value) (test : CaseTest) :
    Tracks ρ c o (r.caseMatches subject test) (r'.caseMatches subject test) := by
  cases test with
  | values values => exact h.anyEqual subject values
  | type written inverted => exact (h.resolveType written).bind fun _ => read _
  | otherwise => exact pure _

theorem cases (h : r.Precedes ρ c r') (label : Option String) (subject : Value)
    (cs : List Case) : Tracks ρ c o (r.cases label subject cs) (r'.cases label subject cs) := by
  induction cs with
  | nil => exact pure _
  | cons case rest ih =>
    obtain ⟨test, body⟩ := case
    refine (h.caseMatches subject test).bind fun _ => Run.Tracks.ite ?_ ih
    refine (h.scopedBlock body).bind fun flow => ?_
    split
    · exact pure _
    · exact ih
    · exact pure _

theorem whileStep (h : r.Precedes ρ c r') (label : Option String) (test : Expr)
    (body : List Stmt) :
    Tracks ρ c o (r.whileStep label test body) (r'.whileStep label test body) :=
  (h.test test).bind fun _ =>
    ((h.scopedBlock body).bind fun _ => pure _).ite (pure _)

theorem untilStep (h : r.Precedes ρ c r') (label : Option String) (test : Expr)
    (body : List Stmt) :
    Tracks ρ c o (r.untilStep label test body) (r'.untilStep label test body) := by
  refine (h.scopedBlock body).bind fun flow => ?_
  split
  · exact (h.test test).bind fun _ => pure _
  · exact pure _

theorem countStep (h : r.Precedes ρ c r') (label : Option String) (test increment : Expr)
    (body : List Stmt) :
    Tracks ρ c o (r.countStep label test increment body)
      (r'.countStep label test increment body) := by
  refine (h.whileStep label test body).bind fun step => ?_
  split
  · exact (h.eval _ _).opened.bind fun _ => pure _
  · exact pure _

theorem bindingType (v : Value) (t : Ty) :
    Tracks ρ c o (Evaluator.bindingType v t) (Evaluator.bindingType v t) := by
  unfold Evaluator.bindingType
  split
  · exact (Run.Tracks.typeOf v).bind fun _ => require _ _
  · exact pure _

theorem bind (name : String) (t : Ty) (v : Value) (constant : Bool) :
    Tracks ρ c True (Evaluator.bind name t v constant) (Evaluator.bind name t v constant) :=
  (bindingType v t).bind fun _ => (Run.Tracks.conform _ _).bind fun _ =>
    (Run.Tracks.declareVariable _ _).bind fun _ => pure _

theorem bindEach (h : r.Precedes ρ c r') (constant : Bool) (names : List (String × TypeExpr))
    (vs : List Value) :
    Tracks ρ c True (r.bindEach constant names vs) (r'.bindEach constant names vs) := by
  induction names generalizing vs with
  | nil => exact pure _
  | cons n names ih =>
    cases vs with
    | nil => exact pure _
    | cons v vs => exact (h.resolveType _).bind fun _ => (bind _ _ _ _).bind fun _ => ih vs

theorem bindAll (h : r.Precedes ρ c r') (names : List (String × TypeExpr)) (vs : List Value)
    (constant : Bool) :
    Tracks ρ c True (r.bindAll names vs constant) (r'.bindAll names vs constant) :=
  Run.Tracks.ite ((fail _).bind fun _ => h.bindEach _ _ _) (h.bindEach _ _ _)

theorem declareVariable (h : r.Precedes ρ c r') (name : String) (written : TypeExpr)
    (init : Expr) (constant : Bool) :
    Tracks ρ c True (r.declareVariable name written init constant)
      (r'.declareVariable name written init constant) := by
  refine (h.resolveType written).bind fun t => (h.eval _ _).opened.bind fun v => ?_
  refine Run.Tracks.ite (Run.Tracks.ite ((fail _).atSpan _) ?_) (bind _ _ _ _)
  exact (h.default t).opened.bind fun _ => bind _ _ _ _

theorem parameters (h : r.Precedes ρ c r') (params : List Param) :
    Tracks ρ c o (r.parameters params) (r'.parameters params) :=
  Run.Tracks.mapM (fun p => (h.resolveType p.type).bind fun _ => pure _) params

theorem returnType (h : r.Precedes ρ c r') (written : TypeExpr) :
    Tracks ρ c o (r.returnType written) (r'.returnType written) := by
  unfold Evaluator.returnType
  split
  · exact pure _
  · exact h.resolveType _

theorem requireNative (h : r.Precedes ρ c r') (signature : String) (returns : Ty) :
    Tracks ρ c o (r.requireNative signature returns) (r'.requireNative signature returns) := by
  unfold Evaluator.requireNative
  rw [h.library]
  exact (require _ _).bind fun _ => (fail _).ite (pure _)

theorem declareSub (h : r.Precedes ρ c r') (d : SubDef) :
    Tracks ρ c True (r.declareSub d) (r'.declareSub d) := by
  refine (h.parameters _).bind fun params => (h.returnType _).bind fun returns => ?_
  refine Run.Tracks.ite ((h.requireNative _ _).bind fun _ => ?_) ?_
  · exact (read _).bind fun _ => Run.Tracks.declareSub _ _ _
  · exact (read _).bind fun _ => Run.Tracks.declareSub _ _ _

theorem declareData (h : r.Precedes ρ c r') (name : String) (fields : List FieldDef) :
    Tracks ρ c True (r.declareData name fields) (r'.declareData name fields) := by
  refine (Run.Tracks.mapM (fun f => ?_) fields).bind fun _ =>
    (read _).bind fun _ => Run.Tracks.declareData _ _
  exact (h.resolveType f.type).bind fun _ => pure _

theorem declareAlias (h : r.Precedes ρ c r') (name : String) (written : TypeExpr) :
    Tracks ρ c True (r.declareAlias name written) (r'.declareAlias name written) :=
  (h.resolveType written).bind fun _ => Run.Tracks.declareAlias _ _

theorem ordinalValue (h : r.Precedes ρ c r') (t : Ty) (ordinal : Nat) :
    Tracks ρ c o (r.ordinalValue t ordinal) (r'.ordinalValue t ordinal) := by
  unfold Evaluator.ordinalValue
  split
  · exact pure _
  · split
    · exact (pure _).ite (h.default _).opened
    · exact (h.default _).opened

theorem entryElement (h : r.Precedes ρ c r') (t : Ty) (ordinal : Nat) (elements : List Expr) :
    Tracks ρ c o (r.entryElement t ordinal elements) (r'.entryElement t ordinal elements) := by
  cases elements
  · exact h.ordinalValue _ _
  · exact (h.eval _ _).opened

theorem basicEntry (h : r.Precedes ρ c r') (t : Ty) (ordinal : Nat) (elements : List Expr) :
    Tracks ρ c o (r.basicEntry t ordinal elements) (r'.basicEntry t ordinal elements) := by
  refine (h.entryElement t ordinal elements).bind fun v => ?_
  split
  · exact (fail _).ite (pure _)
  · exact Run.Tracks.conform _ _

theorem entryValues {value value' : Nat → List Expr → Run Value}
    (h : ∀ ordinal elements, Tracks ρ c o (value ordinal elements) (value' ordinal elements))
    (ordinal : Nat) (entries : List EntryDef) :
    Tracks ρ c o (Evaluator.entryValues value ordinal entries)
      (Evaluator.entryValues value' ordinal entries) := by
  induction entries generalizing ordinal with
  | nil => exact pure _
  | cons e rest ih => exact (h _ _).bind fun _ => (ih _).bind fun _ => pure _

theorem enumEntries (h : r.Precedes ρ c r') (kind : EnumKind) (entries : List EntryDef) :
    Tracks ρ c o (r.enumEntries kind entries) (r'.enumEntries kind entries) := by
  cases kind with
  | basic written =>
    exact (h.resolveType written).bind fun t =>
      (entryValues (h.basicEntry t) 0 entries).bind fun _ => pure _
  | data data =>
    exact (h.resolveType _).bind fun t =>
      (entryValues (fun _ elements => h.instantiate t elements) 0 entries).bind fun _ => pure _

theorem declareEnum (h : r.Precedes ρ c r') (name : String) (kind : EnumKind)
    (entries : List EntryDef) :
    Tracks ρ c True (r.declareEnum name kind entries) (r'.declareEnum name kind entries) :=
  (h.enumEntries kind entries).bind fun _ => Run.Tracks.declareEnum _ _

theorem countLoop (h : r.Precedes ρ c r') (label : Option String) (name : String)
    (type : TypeExpr) (start limit : Expr) (step : Option Expr) (body : List Stmt) :
    Tracks ρ c o (r.countLoop label name type start limit step body)
      (r'.countLoop label name type start limit step body) :=
  Run.Tracks.opened <| Run.Tracks.inScope <| (h.resolveType type).bind fun _ =>
    (h.eval _ _).opened.bind fun _ => (bind _ _ _ _).bind fun _ =>
      (h.countStep _ _ _ _).loop h.rounds

theorem eachStep (h : r.Precedes ρ c r') (label : Option String) (name : String) (t : Ty)
    (body : List Stmt) (v : Value) :
    Tracks ρ c o (r.eachStep label name t body v) (r'.eachStep label name t body v) :=
  ((bind _ _ _ _).bind fun _ => h.block body).inScope.opened.bind fun _ => pure _

theorem eachOfStep (h : r.Precedes ρ c r') (label : Option String)
    (names : List (String × TypeExpr)) (body : List Stmt) (v : Value) :
    Tracks ρ c o (r.eachOfStep label names body v) (r'.eachOfStep label names body v) :=
  (Run.Tracks.elementsOf v).bind fun _ =>
    ((h.bindAll _ _ _).bind fun _ => h.block body).inScope.opened.bind fun _ => pure _

theorem stmtKind (h : r.Precedes ρ c r') (kind : StmtKind) :
    Tracks ρ c True (r.stmtKind kind) (r'.stmtKind kind) := by
  cases kind with
  | none => exact pure _
  | expression e => exact (h.eval _ _).opened.bind fun _ => pure _
  | declare name type init constant =>
    exact (h.declareVariable _ _ _ _).bind fun _ => pure _
  | declareEach names init constant =>
    exact (h.eval _ _).opened.bind fun _ => (Run.Tracks.elementsOf _).bind fun _ =>
      (h.bindAll _ _ _).bind fun _ => pure _
  | block body => exact h.scopedBlock body
  | doBlock label body => exact (h.scopedBlock body).bind fun _ => pure _
  | ifElse bs otherwise => exact h.branches otherwise bs
  | switch label subject cs => exact (h.eval _ _).opened.bind fun _ => h.cases _ _ _
  | whileLoop label test body => exact (h.whileStep _ _ _).loop h.rounds
  | untilLoop label test body => exact (h.untilStep _ _ _).loop h.rounds
  | forCount label name type start limit step body => exact h.countLoop _ _ _ _ _ _ _
  | forEach label name type iterable body =>
    exact (h.resolveType _).bind fun t => (h.iterationValues _).bind fun _ =>
      Run.Tracks.forValues (h.eachStep label name t body) _
  | forEachOf label names iterable body =>
    exact (h.iterationValues _).bind fun _ =>
      Run.Tracks.forValues (h.eachOfStep label names body) _
  | data name fields => exact (h.declareData _ _).bind fun _ => pure _
  | sub d => exact (h.declareSub d).bind fun _ => pure _
  | breakTo label => exact pure _
  | nextTo label => exact pure _
  | leave => exact pure _
  | yield value => exact (read _).bind fun _ => (h.eval _ _).opened.bind fun _ => pure _
  | «alias» name type => exact (h.declareAlias _ _).bind fun _ => pure _
  | enum name kind entries => exact (h.declareEnum _ _ _).bind fun _ => pure _

theorem stmt (h : r.Precedes ρ c r') (s : Stmt) : Tracks ρ c True (r.stmt s) (r'.stmt s) :=
  (h.stmtKind s.kind).traced _ _

end Evaluator.Precedes

end BasicScript
