import BasicScript.Proofs.Keeping.Basic
import BasicScript.Proofs.Law.Local

/-! # Composites, declarations and statements that keep a property

Evaluators that do the same wherever a lasting property holds of the current
path give rules that do so. The default of a field is evaluated below the
scope of its data type, so this scope comes into play with the declaration.
-/

namespace BasicScript

/-- The first evaluator keeps within the frame, and the other does the same from states with a
lasting property. -/
structure Evaluator.Abides (P : Environment → ScopePath → Prop) (r r' : Evaluator) : Prop where
  lasting : Environment.Lasting P
  framed : r.Precedes none False r
  library : r.library = .standard
  library_eq : r'.library = r.library
  rounds : r'.rounds = r.rounds
  eval : ∀ {paths} hint e, Run.Abides P paths (r.eval hint e) (r'.eval hint e)
  exec : ∀ s, Run.Abides P [] (r.exec s) (r'.exec s)
  default : ∀ {paths} t, Run.Abides P paths (r.default t) (r'.default t)
  invoke : ∀ {paths} name args, Run.Abides P paths (r.invoke name args) (r'.invoke name args)

namespace Evaluator.Abides

open Run (Abides)
open Run.Abides (read require pure fail)

variable {P : Environment → ScopePath → Prop} {paths : List ScopePath} {r r' : Evaluator}

/-- What does not ask the evaluator keeps the property in a closed frame. -/
theorem own {α : Type} (h : r.Abides P r') {x : Run α} (hx : Run.Tracks none False False x x) :
    Run.Abides P paths x x := .closed h.lasting (fun _ _ => rfl) hx

theorem conform (h : r.Abides P r') (t : Ty) (v : Value) :
    Run.Abides P paths (Run.conform t v) (Run.conform t v) := h.own (.conform t v)

theorem newArray (h : r.Abides P r') (element : Ty) (vs : List Value) :
    Run.Abides P paths (Run.newArray element vs) (Run.newArray element vs) :=
  h.own (.newArray element vs)

theorem failOn {α : Type} (h : r.Abides P r') (f : Option Ty → Fault) (v : Value) :
    Run.Abides P paths (Run.failOn f v : Run α) (Run.failOn f v) := h.own (.failOn f v)

theorem elementsOf (h : r.Abides P r') (v : Value) :
    Run.Abides P paths (Run.elementsOf v) (Run.elementsOf v) := h.own (.elementsOf v)

theorem block (h : r.Abides P r') (body : List Stmt) :
    Run.Abides P [] (r.block body) (r'.block body) := by
  induction body with
  | nil => exact pure _
  | cons stmt rest ih =>
    refine (h.exec stmt).bind fun flow => ?_
    cases flow
    · exact ih
    · exact pure _

theorem scopedBlock (h : r.Abides P r') (body : List Stmt) :
    Run.Abides P paths (r.scopedBlock body) (r'.scopedBlock body) :=
  (h.block body).inScope h.lasting (h.framed.block body)

theorem arraySize (h : r.Abides P r') (size : Expr) :
    Run.Abides P paths (r.arraySize size) (r'.arraySize size) := by
  refine (h.eval none size).bind fun v => ?_
  split
  · exact pure _
  · exact h.failOn _ _

theorem resolveType (h : r.Abides P r') (written : TypeExpr) :
    Run.Abides P paths (r.resolveType written) (r'.resolveType written) := by
  fun_induction Evaluator.resolveType r written with
  | case1 => exact pure _
  | case2 p => exact pure _
  | case3 element ih => exact ih.bind fun _ => pure _
  | case4 element size ih => exact ih.bind fun _ => (h.arraySize size).bind fun _ => pure _
  | case5 element ih => exact ih.bind fun _ => pure _
  | case6 name => exact (read _).bind fun _ => require _ _

theorem suppliedValue (h : r.Abides P r') (t : Ty) (element : Option Expr) :
    Run.Abides P paths (r.suppliedValue t element) (r'.suppliedValue t element) := by
  cases element
  · exact pure _
  · exact h.eval _ _

theorem fieldValue (h : r.Abides P r') {scope : ScopePath} (hscope : scope ∈ paths)
    (field : Field) (element : Option Expr) :
    Run.Abides P paths (r.fieldValue scope field element)
      (r'.fieldValue scope field element) := by
  refine (h.suppliedValue _ _).bind fun supplied => Run.Abides.ite ?_ (pure _)
  split
  · exact (h.eval _ _).inLiveScope h.lasting (h.framed.eval _ _) hscope
  · exact h.default _

theorem fieldCells (h : r.Abides P r') {scope : ScopePath} (hscope : scope ∈ paths)
    (fields : List Field) (elements : List Expr) :
    Run.Abides P paths (r.fieldCells scope fields elements)
      (r'.fieldCells scope fields elements) := by
  induction fields generalizing elements with
  | nil => exact pure _
  | cons field fields ih =>
    exact (h.fieldValue hscope field _).bind fun _ => (h.conform _ _).bind fun _ =>
      (h.own (.newCell _)).bind fun _ => (ih _).bind fun _ => pure _

theorem instantiateData (h : r.Abides P r') (name : String) (elements : List Expr) :
    Run.Abides P paths (r.instantiateData name elements) (r'.instantiateData name elements) := by
  refine .bind_read fun s hs => .inr
    ⟨s.env.data? name, (s.env.data? name).toList.map DataDecl.scope, rfl, ?_, ?_⟩
  · intro path hpath
    obtain ⟨d, hd, rfl⟩ := List.mem_map.mp hpath
    exact h.lasting.dataScope hs.current (Option.mem_toList.mp hd)
  · refine .bind_require fun decl hdecl => ?_
    have hscope : decl.scope ∈ (s.env.data? name).toList.map DataDecl.scope ++ paths :=
      List.mem_append_left _ (List.mem_map_of_mem (Option.mem_toList.mpr hdecl))
    have hcells := h.fieldCells hscope decl.fields elements
    exact Run.Abides.ite ((fail _).bind fun _ => hcells.bind fun _ => pure _)
      (hcells.bind fun _ => pure _)

theorem instantiateArray (h : r.Abides P r') (element : Ty) (size : Option Nat)
    (elements : List Expr) :
    Run.Abides P paths (r.instantiateArray element size elements)
      (r'.instantiateArray element size elements) := by
  have hbuild : Run.Abides P paths
      (do
        let given ← elements.mapM fun e => do Run.conform element (← r.eval element.hint? e)
        let filler ← (List.replicate (size.getD elements.length - elements.length)
          element).mapM r.default
        Run.newArray element (given ++ filler))
      (do
        let given ← elements.mapM fun e => do Run.conform element (← r'.eval element.hint? e)
        let filler ← (List.replicate (size.getD elements.length - elements.length)
          element).mapM r'.default
        Run.newArray element (given ++ filler)) :=
    (Run.Abides.mapM (fun e => (h.eval _ e).bind fun _ => h.conform _ _) _).bind
      fun _ => (Run.Abides.mapM (fun t => (h.default t)) _).bind fun _ =>
        h.newArray _ _
  exact Run.Abides.ite ((fail _).bind fun _ => hbuild) hbuild

theorem instantiate (h : r.Abides P r') (t : Ty) (elements : List Expr) :
    Run.Abides P paths (r.instantiate t elements) (r'.instantiate t elements) := by
  unfold Evaluator.instantiate
  split
  · exact h.instantiateData _ _
  · exact h.instantiateArray _ _ _
  · exact h.instantiateArray _ _ _
  · exact fail _

theorem arrayLiteral (h : r.Abides P r') (hint : Option Ty) (elements : List Expr) :
    Run.Abides P paths (r.arrayLiteral hint elements) (r'.arrayLiteral hint elements) := by
  refine (Run.Abides.mapM (fun e => ?_) _).bind fun typed =>
    (Run.Abides.mapM (fun p => h.conform _ _) _).bind fun _ => h.newArray _ _
  exact (h.eval hint e).bind fun v => (h.own (.typeOf v)).bind fun _ =>
    (require _ _).bind fun _ => pure _

theorem defaultValue (h : r.Abides P r') (t : Ty) :
    Run.Abides P paths (r.defaultValue t) (r'.defaultValue t) := by
  unfold Evaluator.defaultValue
  split
  · exact pure _
  · exact pure _
  · exact pure _
  · exact pure _
  · exact pure _
  · split
    · exact pure _
    · exact fail _
  · exact fail _
  · exact (Run.Abides.mapM (fun t => (h.default t)) _).bind fun _ =>
      h.newArray _ _
  · exact h.newArray _ _
  · exact h.instantiateData _ _
  · exact (read _).bind fun _ => (require _ _).bind fun _ => require _ _

theorem iterationValues (h : r.Abides P r') (iterable : Expr) :
    Run.Abides P paths (r.iterationValues iterable) (r'.iterationValues iterable) := by
  unfold Evaluator.iterationValues
  split
  · refine (h.resolveType _).bind fun t => ?_
    split
    · exact (read _).bind fun _ => (require _ _).bind fun _ => pure _
    · exact (h.eval _ _).bind fun _ => h.elementsOf _
  · exact (h.eval _ _).bind fun _ => h.elementsOf _

theorem test (h : r.Abides P r') (e : Expr) : Run.Abides P paths (r.test e) (r'.test e) := by
  refine (h.eval _ _).bind fun v => ?_
  split
  · exact pure _
  · exact ((h.own (.typeOf _)).bind fun _ => fail _).atSpan _

theorem branches (h : r.Abides P r') (otherwise : Option (List Stmt)) (bs : List Branch) :
    Run.Abides P paths (r.branches otherwise bs) (r'.branches otherwise bs) := by
  induction bs with
  | nil =>
    cases otherwise
    · exact pure _
    · exact h.scopedBlock _
  | cons b rest ih =>
    obtain ⟨test, body⟩ := b
    exact (h.test test).bind fun _ => (h.scopedBlock body).ite ih

theorem anyEqual (h : r.Abides P r') (subject : Value) (values : List Expr) :
    Run.Abides P paths (r.anyEqual subject values) (r'.anyEqual subject values) := by
  induction values with
  | nil => exact pure _
  | cons e rest ih =>
    exact (h.eval _ _).bind fun _ => (h.own (.ending _)).bind fun _ =>
      (read _).bind fun _ => (pure _).ite ih

theorem caseMatches (h : r.Abides P r') (subject : Value) (test : CaseTest) :
    Run.Abides P paths (r.caseMatches subject test) (r'.caseMatches subject test) := by
  cases test with
  | values values => exact h.anyEqual subject values
  | type written inverted => exact (h.resolveType written).bind fun _ => read _
  | otherwise => exact pure _

theorem cases (h : r.Abides P r') (label : Option String) (subject : Value)
    (cs : List Case) :
    Run.Abides P paths (r.cases label subject cs) (r'.cases label subject cs) := by
  induction cs with
  | nil => exact pure _
  | cons case rest ih =>
    obtain ⟨test, body⟩ := case
    refine (h.caseMatches subject test).bind fun _ => Run.Abides.ite ?_ ih
    refine (h.scopedBlock body).bind fun flow => ?_
    split
    · exact pure _
    · exact ih
    · exact pure _

theorem whileStep (h : r.Abides P r') (label : Option String) (test : Expr)
    (body : List Stmt) :
    Run.Abides P paths (r.whileStep label test body) (r'.whileStep label test body) :=
  (h.test test).bind fun _ =>
    ((h.scopedBlock body).bind fun _ => pure _).ite (pure _)

theorem untilStep (h : r.Abides P r') (label : Option String) (test : Expr)
    (body : List Stmt) :
    Run.Abides P paths (r.untilStep label test body) (r'.untilStep label test body) := by
  refine (h.scopedBlock body).bind fun flow => ?_
  split
  · exact (h.test test).bind fun _ => pure _
  · exact pure _

theorem countStep (h : r.Abides P r') (label : Option String) (test increment : Expr)
    (body : List Stmt) :
    Run.Abides P paths (r.countStep label test increment body)
      (r'.countStep label test increment body) := by
  refine (h.whileStep label test body).bind fun step => ?_
  split
  · exact (h.eval _ _).bind fun _ => pure _
  · exact pure _

theorem bindingType (h : r.Abides P r') (v : Value) (t : Ty) :
    Run.Abides P paths (Evaluator.bindingType v t) (Evaluator.bindingType v t) := by
  unfold Evaluator.bindingType
  split
  · exact (h.own (.typeOf v)).bind fun _ => require _ _
  · exact pure _

theorem bind (h : r.Abides P r') (name : String) (t : Ty) (v : Value) (constant : Bool) :
    Run.Abides P [] (Evaluator.bind name t v constant) (Evaluator.bind name t v constant) :=
  (h.bindingType v t).bind fun _ => (h.conform _ _).bind fun _ =>
    (Run.Abides.declareVariable h.lasting _ _).bind fun _ => pure _

theorem bindEach (h : r.Abides P r') (constant : Bool) (names : List (String × TypeExpr))
    (vs : List Value) :
    Run.Abides P [] (r.bindEach constant names vs) (r'.bindEach constant names vs) := by
  induction names generalizing vs with
  | nil => exact pure _
  | cons n names ih =>
    cases vs with
    | nil => exact pure _
    | cons v vs => exact (h.resolveType _).bind fun _ => (h.bind _ _ _ _).bind fun _ => ih vs

theorem bindAll (h : r.Abides P r') (names : List (String × TypeExpr)) (vs : List Value)
    (constant : Bool) :
    Run.Abides P [] (r.bindAll names vs constant) (r'.bindAll names vs constant) :=
  Run.Abides.ite ((fail _).bind fun _ => h.bindEach _ _ _) (h.bindEach _ _ _)

theorem declareVariable (h : r.Abides P r') (name : String) (written : TypeExpr)
    (init : Expr) (constant : Bool) :
    Run.Abides P [] (r.declareVariable name written init constant)
      (r'.declareVariable name written init constant) := by
  refine (h.resolveType written).bind fun t => (h.eval _ _).bind fun v => ?_
  refine Run.Abides.ite (Run.Abides.ite ((fail _).atSpan _) ?_) (h.bind _ _ _ _)
  exact (h.default t).bind fun _ => h.bind _ _ _ _

theorem parameters (h : r.Abides P r') (params : List Param) :
    Run.Abides P paths (r.parameters params) (r'.parameters params) :=
  Run.Abides.mapM (fun p => (h.resolveType p.type).bind fun _ => pure _) params

theorem returnType (h : r.Abides P r') (written : TypeExpr) :
    Run.Abides P paths (r.returnType written) (r'.returnType written) := by
  unfold Evaluator.returnType
  split
  · exact pure _
  · exact h.resolveType _

theorem declareSub (h : r.Abides P r') (d : SubDef) :
    Run.Abides P [] (r.declareSub d) (r'.declareSub d) := by
  have hnative : r'.requireNative = r.requireNative := by
    funext signature returns
    unfold Evaluator.requireNative
    rw [h.library_eq]
  have hsame : Run.Agrees P (r.declareSub d) (r'.declareSub d) := by
    refine (h.parameters _).agrees_bind fun params => ?_
    refine (h.returnType _).agrees_bind fun returns => ?_
    rw [hnative]
    exact fun _ _ => rfl
  exact fun s hs => ⟨hsame s hs, .of_current (h.lasting.declareSub h.framed rfl hs.current)⟩

theorem declareData (h : r.Abides P r') (name : String) (fields : List FieldDef) :
    Run.Abides P [] (r.declareData name fields) (r'.declareData name fields) := by
  have hsame : Run.Agrees P (r.declareData name fields) (r'.declareData name fields) := by
    refine (Run.Abides.mapM (fun f => ?_) fields).agrees_bind fun _ _ _ => rfl
    exact (h.resolveType f.type).bind fun _ => pure _
  exact fun s hs => ⟨hsame s hs, .of_current (h.lasting.declareData h.framed rfl hs.current)⟩

theorem declareAlias (h : r.Abides P r') (name : String) (written : TypeExpr) :
    Run.Abides P [] (r.declareAlias name written) (r'.declareAlias name written) := by
  have hsame : Run.Agrees P (r.declareAlias name written) (r'.declareAlias name written) :=
    (h.resolveType written).agrees_bind fun _ _ _ => rfl
  exact fun s hs => ⟨hsame s hs, .of_current (h.lasting.declareAlias h.framed rfl hs.current)⟩

theorem ordinalValue (h : r.Abides P r') (t : Ty) (ordinal : Nat) :
    Run.Abides P paths (r.ordinalValue t ordinal) (r'.ordinalValue t ordinal) := by
  unfold Evaluator.ordinalValue
  split
  · exact pure _
  · split
    · exact (pure _).ite (h.default _)
    · exact h.default _

theorem entryElement (h : r.Abides P r') (t : Ty) (ordinal : Nat) (elements : List Expr) :
    Run.Abides P paths (r.entryElement t ordinal elements)
      (r'.entryElement t ordinal elements) := by
  cases elements
  · exact h.ordinalValue _ _
  · exact h.eval _ _

theorem basicEntry (h : r.Abides P r') (t : Ty) (ordinal : Nat) (elements : List Expr) :
    Run.Abides P paths (r.basicEntry t ordinal elements) (r'.basicEntry t ordinal elements) := by
  refine (h.entryElement t ordinal elements).bind fun v => ?_
  split
  · exact (fail _).ite (pure _)
  · exact h.conform _ _

theorem entryValues {value value' : Nat → List Expr → Run Value}
    (h : ∀ ordinal elements, Run.Abides P paths (value ordinal elements) (value' ordinal elements))
    (ordinal : Nat) (entries : List EntryDef) :
    Run.Abides P paths (Evaluator.entryValues value ordinal entries)
      (Evaluator.entryValues value' ordinal entries) := by
  induction entries generalizing ordinal with
  | nil => exact pure _
  | cons e rest ih => exact (h _ _).bind fun _ => (ih _).bind fun _ => pure _

theorem enumEntries (h : r.Abides P r') (kind : EnumKind) (entries : List EntryDef) :
    Run.Abides P paths (r.enumEntries kind entries) (r'.enumEntries kind entries) := by
  cases kind with
  | basic written =>
    exact (h.resolveType written).bind fun t =>
      (entryValues (h.basicEntry t) 0 entries).bind fun _ => pure _
  | data data =>
    exact (h.resolveType _).bind fun t =>
      (entryValues (fun _ elements => h.instantiate t elements) 0 entries).bind fun _ => pure _

theorem declareEnum (h : r.Abides P r') (name : String) (kind : EnumKind)
    (entries : List EntryDef) :
    Run.Abides P [] (r.declareEnum name kind entries) (r'.declareEnum name kind entries) :=
  (h.enumEntries kind entries).bind fun _ => .declareEnum h.lasting _ _

theorem loop (h : r.Abides P r') {x y : Run LoopStep} (hxy : Run.Abides P paths x y) :
    Run.Abides P paths (Run.loop x r.rounds) (Run.loop y r'.rounds) :=
  h.rounds ▸ hxy.loop r.rounds

theorem countLoop (h : r.Abides P r') (label : Option String) (name : String)
    (type : TypeExpr) (start limit : Expr) (step : Option Expr) (body : List Stmt) :
    Run.Abides P paths (r.countLoop label name type start limit step body)
      (r'.countLoop label name type start limit step body) := by
  have hframe : Run.Tracks none False False _ _ :=
    h.framed.countLoop label name type start limit step body
  refine .closed h.lasting (fun s hs => ?_) hframe
  refine Run.Abides.inScopeBelow h.lasting ?_ hs.current
  exact (h.resolveType type).bind fun _ => (h.eval _ _).bind fun _ =>
    (h.bind _ _ _ _).bind fun _ => h.loop (h.countStep _ _ _ _)

theorem eachStep (h : r.Abides P r') (label : Option String) (name : String) (t : Ty)
    (body : List Stmt) (v : Value) :
    Run.Abides P paths (r.eachStep label name t body v) (r'.eachStep label name t body v) := by
  have hframe : Run.Tracks none False True _ _ :=
    (Evaluator.Precedes.bind name t v false).bind fun _ => h.framed.block body
  have hround := (h.bind name t v false).bind fun _ => h.block body
  exact (hround.inScope h.lasting hframe).bind fun _ => pure _

theorem eachOfStep (h : r.Abides P r') (label : Option String)
    (names : List (String × TypeExpr)) (body : List Stmt) (v : Value) :
    Run.Abides P paths (r.eachOfStep label names body v)
      (r'.eachOfStep label names body v) := by
  refine (h.elementsOf v).bind fun vs => ?_
  have hframe : Run.Tracks none False True _ _ :=
    (h.framed.bindAll names vs false).bind fun _ => h.framed.block body
  have hround := (h.bindAll names vs false).bind fun _ => h.block body
  exact (hround.inScope h.lasting hframe).bind fun _ => pure _

theorem stmtKind (h : r.Abides P r') (kind : StmtKind) :
    Run.Abides P [] (r.stmtKind kind) (r'.stmtKind kind) := by
  cases kind with
  | none => exact pure _
  | expression e => exact (h.eval _ _).bind fun _ => pure _
  | declare name type init constant =>
    exact (h.declareVariable _ _ _ _).bind fun _ => pure _
  | declareEach names init constant =>
    exact (h.eval _ _).bind fun _ => (h.elementsOf _).bind fun _ =>
      (h.bindAll _ _ _).bind fun _ => pure _
  | block body => exact h.scopedBlock body
  | doBlock label body => exact (h.scopedBlock body).bind fun _ => pure _
  | ifElse bs otherwise => exact h.branches otherwise bs
  | switch label subject cs => exact (h.eval _ _).bind fun _ => h.cases _ _ _
  | whileLoop label test body => exact h.loop (h.whileStep _ _ _)
  | untilLoop label test body => exact h.loop (h.untilStep _ _ _)
  | forCount label name type start limit step body => exact h.countLoop _ _ _ _ _ _ _
  | forEach label name type iterable body =>
    exact (h.resolveType _).bind fun t => (h.iterationValues _).bind fun _ =>
      Run.Abides.forValues (h.eachStep label name t body) _
  | forEachOf label names iterable body =>
    exact (h.iterationValues _).bind fun _ =>
      Run.Abides.forValues (h.eachOfStep label names body) _
  | data name fields => exact (h.declareData _ _).bind fun _ => pure _
  | sub d => exact (h.declareSub d).bind fun _ => pure _
  | breakTo label => exact pure _
  | nextTo label => exact pure _
  | leave => exact pure _
  | yield value => exact (read _).bind fun _ => (h.eval _ _).bind fun _ => pure _
  | «alias» name type => exact (h.declareAlias _ _).bind fun _ => pure _
  | enum name kind entries => exact (h.declareEnum _ _ _).bind fun _ => pure _

theorem stmt (h : r.Abides P r') (s : Stmt) : Run.Abides P [] (r.stmt s) (r'.stmt s) :=
  (h.stmtKind s.kind).traced _ _

end Evaluator.Abides

end BasicScript
