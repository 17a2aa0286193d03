import BasicScript.Proofs.Calls.Choice
import BasicScript.Proofs.Keeping.Statement

/-! # Calls and expressions that keep a property

The scopes of the overloads that are visible where a call is made come into
play with the call: bodies and default expressions are run below them.
-/

namespace BasicScript

namespace Evaluator.Abides

open Run.Abides (read require pure fail)

variable {P : Environment → ScopePath → Prop} {paths : List ScopePath} {r r' : Evaluator}

theorem argument (h : r.Abides P r') (arg : Argument) :
    Run.Abides P paths (r.argument arg) (r'.argument arg) := by
  obtain ⟨spread, e⟩ := arg
  cases spread with
  | true =>
    exact (h.eval _ _).bind fun v => ((h.elementsOf v).atSpan _).bind fun _ => pure _
  | false => exact (pure _).ite ((h.eval _ _).bind fun _ => pure _)

theorem arguments (h : r.Abides P r') (args : List Argument) :
    Run.Abides P paths (r.arguments args) (r'.arguments args) := by
  induction args with
  | nil => exact pure _
  | cons arg rest ih => exact (h.argument arg).bind fun _ => ih.bind fun _ => pure _

theorem argumentValue (h : r.Abides P r') (t : Ty) (arg : Pending) :
    Run.Abides P paths (r.argumentValue t arg) (r'.argumentValue t arg) := by
  cases arg
  · exact pure _
  · exact h.eval _ _

theorem bindArgument (h : r.Abides P r') (p : Parameter) (arg : Option Pending) :
    Run.Abides P paths (r.bindArgument p arg) (r'.bindArgument p arg) := by
  cases arg with
  | none => exact pure _
  | some arg =>
    exact (pure _).ite ((h.argumentValue _ _).bind fun _ =>
      (h.conform _ _).bind fun _ => pure _)

theorem bindFixed (h : r.Abides P r') (ps : List Parameter) (args : List Pending) :
    Run.Abides P paths (r.bindFixed ps args) (r'.bindFixed ps args) := by
  induction ps generalizing args with
  | nil => exact pure _
  | cons p ps ih => exact (h.bindArgument p _).bind fun _ => (ih _).bind fun _ => pure _

theorem bindArguments (h : r.Abides P r') (sub : Sub) (args : List Pending) :
    Run.Abides P paths (r.bindArguments sub args) (r'.bindArguments sub args) := by
  refine (h.bindFixed _ _).bind fun slots => ?_
  split
  · exact pure _
  · refine (Run.Abides.mapM (fun arg => ?_) _).bind fun _ =>
      (h.newArray _ _).bind fun _ => pure _
    exact (h.argumentValue _ arg).bind fun _ => h.conform _ _

theorem parameterDefault (h : r.Abides P r') {sub : Sub} (hsub : sub.scope ∈ paths)
    (p : Parameter) :
    Run.Abides P paths (r.parameterDefault sub p) (r'.parameterDefault sub p) := by
  unfold Evaluator.parameterDefault
  split
  · exact (h.eval _ _).inLiveScope h.lasting (h.framed.eval _ _) hsub
  · exact h.default _

theorem filled (h : r.Abides P r') {sub : Sub} (hsub : sub.scope ∈ paths) (p : Parameter)
    (slot : Option Value) : Run.Abides P paths (r.filled sub p slot) (r'.filled sub p slot) := by
  cases slot
  · exact (h.parameterDefault hsub p).bind fun _ => h.conform _ _
  · exact pure _

theorem fillDefaults (h : r.Abides P r') {sub : Sub} (hsub : sub.scope ∈ paths)
    (ps : List Parameter) (slots : List (Option Value)) :
    Run.Abides P paths (r.fillDefaults sub ps slots) (r'.fillDefaults sub ps slots) := by
  induction ps generalizing slots with
  | nil => exact pure _
  | cons p ps ih =>
    cases slots with
    | nil => exact pure _
    | cons slot slots =>
      exact (h.filled hsub p slot).bind fun _ => (ih slots).bind fun _ => pure _

theorem firstChoice (h : r.Abides P r') (name : String) (args : List Pending) (subs : List Sub) :
    Run.Abides P paths (r.firstChoice name args subs) (r'.firstChoice name args subs) := by
  induction subs with
  | nil => exact fail _
  | cons sub rest ih =>
    exact (h.bindArguments sub args).either (fun _ => pure _) fun e => ih.ite (.stop e)

theorem callNative (h : r.Abides P r') (sub : Sub) (bound : List Value) :
    Run.Abides P paths (r.callNative sub bound) (r'.callNative sub bound) := by
  obtain ⟨x, -, hx⟩ := Evaluator.callNative_local sub bound
  have hsame : r'.callNative sub bound = r.callNative sub bound :=
    (hx r' (h.library_eq.trans h.library)).trans (hx r h.library).symm
  have hlibrary : r.library.Framed False := by
    rw [h.library]
    exact Library.standard_framed
  rw [hsame]
  exact h.own (h.framed.callNative hlibrary sub bound)

theorem declareParameters (h : r.Abides P r') (ps : List Parameter) (vs : List Value) :
    Run.Abides P [] (Evaluator.declareParameters ps vs)
      (Evaluator.declareParameters ps vs) := by
  induction ps generalizing vs with
  | nil => exact pure _
  | cons p ps ih =>
    cases vs with
    | nil => exact pure _
    | cons v vs => exact (Run.Abides.declareVariable h.lasting _ _).bind fun _ => ih vs

theorem initialResult (h : r.Abides P r') (t : Ty) :
    Run.Abides P paths (r.initialResult t) (r'.initialResult t) := by
  refine (h.default t).either pure fun e => ?_
  split
  · exact pure _
  · exact .stop e

theorem runBody (h : r.Abides P r') {sub : Sub} (hsub : sub.scope ∈ paths) (bound : List Value) :
    Run.Abides P paths (r.runBody sub bound) (r'.runBody sub bound) := by
  have hframe : Run.Tracks none False False (r.runBody sub bound) (r.runBody sub bound) :=
    Evaluator.Precedes.runBody h.framed.default (h.framed.block sub.body) bound
  have hbody : Run.Abides P [] _ _ :=
    (h.declareParameters sub.params bound).bind fun _ => (h.initialResult sub.returns).bind
      fun initial => (Run.Abides.declareVariable h.lasting sub.name
        ⟨sub.returns, initial, false⟩).bind fun slot =>
          ((h.block sub.body).returning sub.returns).bind fun flow =>
            h.own (Evaluator.Precedes.bodyResult sub slot flow)
  refine .closed h.lasting (fun s hs => ?_) hframe
  unfold Evaluator.runBody Run.inLiveScope
  split
  · exact hbody.inScopeBelow h.lasting (hs sub.scope (List.mem_cons_of_mem _ hsub))
  · rfl

theorem callSub (h : r.Abides P r') {sub : Sub} (hsub : sub.scope ∈ paths) (bound : List Value)
    (span : Span) :
    Run.Abides P paths (r.callSub sub bound span) (r'.callSub sub bound span) :=
  .asCall _ ((h.callNative sub bound).ite (h.runBody hsub bound))

theorem callPending (h : r.Abides P r') (name : String) (args : List Pending) (span : Span) :
    Run.Abides P paths (r.callPending name args span) (r'.callPending name args span) := by
  have hsteps : ∀ r : Evaluator, r.callPending name args span =
      fittingOverloads name args.length >>= fun subs =>
        r.firstChoice name args subs >>= fun choice =>
          r.fillDefaults choice.1 choice.1.params choice.2 >>= fun bound =>
            r.callSub choice.1 bound span := by
    intro r
    unfold Evaluator.callPending
    rw [resolveOverload_eq]
    simp only [choose, fill, bind_assoc, pure_bind]
  rw [hsteps, hsteps]
  refine .bind_read fun s hs => ?_
  rw [fittingOverloads_run]
  split_ifs
  · exact .inl ⟨_, rfl⟩
  · exact .inl ⟨_, rfl⟩
  · refine .inr ⟨_, (Sub.byArity ((s.env.overloads name).filter
      (·.fits args.length))).map Sub.scope, rfl, ?_, ?_⟩
    · intro path hpath
      obtain ⟨sub, hsub, rfl⟩ := List.mem_map.mp hpath
      exact h.lasting.subScope hs.current (List.mem_filter.mp (Sub.mem_byArity.mp hsub)).1
    · refine (h.firstChoice name args _).bind_of fun _ choice _ hchoice => ?_
      have hsub := List.mem_append_left paths
        (List.mem_map_of_mem (f := Sub.scope) (firstChoice_mem hchoice))
      exact (h.fillDefaults hsub _ _).bind fun bound => h.callSub hsub bound span

theorem callValues (h : r.Abides P r') (name : String) (values : List Value) :
    Run.Abides P paths (r.callValues name values) (r'.callValues name values) :=
  h.callPending _ _ _

theorem callExpr (h : r.Abides P r') (name : String) (receiver : Option Value)
    (args : List Argument) (span : Span) :
    Run.Abides P paths (r.callExpr name receiver args span)
      (r'.callExpr name receiver args span) :=
  (h.arguments args).bind fun _ => h.callPending _ _ _

theorem applyBinary (h : r.Abides P r') (op : BinaryOp) (v w : Value) :
    Run.Abides P paths (Evaluator.applyBinary op v w) (Evaluator.applyBinary op v w) :=
  h.own (Evaluator.Precedes.applyBinary op v w)

theorem applyUnary (h : r.Abides P r') (op : UnaryOp) (v : Value) :
    Run.Abides P paths (op.apply v) (op.apply v) := h.own (Evaluator.Precedes.applyUnary op v)

theorem getMember (h : r.Abides P r') (target : Value) (member : String) :
    Run.Abides P paths (Evaluator.getMember target member)
      (Evaluator.getMember target member) := h.own (Evaluator.Precedes.getMember target member)

theorem unaryExpr (h : r.Abides P r') (op : UnaryOp) (operand : Expr) :
    Run.Abides P paths (r.unaryExpr op operand) (r'.unaryExpr op operand) := by
  refine (h.eval _ _).bind fun v => ?_
  split
  · exact (read _).bind fun _ => (h.invoke _ _).ite (h.applyUnary op _)
  · exact h.applyUnary op _

theorem assignExpr (h : r.Abides P r') (left right : Expr) :
    Run.Abides P paths (r.assignExpr left right) (r'.assignExpr left right) := by
  unfold Evaluator.assignExpr
  split
  · exact (h.own (.cellOf _)).bind fun _ => (read _).bind fun _ => (h.eval _ _).bind fun _ =>
      h.own (.assign _ _ _)
  · exact (fail _).atSpan _

theorem logicExpr (h : r.Abides P r') (op : BinaryOp) (decisive : Bool)
    (left right : Expr) :
    Run.Abides P paths (r.logicExpr op decisive left right)
      (r'.logicExpr op decisive left right) := by
  refine (h.eval _ _).bind fun v => ?_
  split
  · refine (pure _).ite ((h.eval _ _).bind fun w => ?_)
    split
    · exact pure _
    · exact (h.failOn _ _).atSpan _
  · exact (h.failOn _ _).atSpan _

theorem typeOperand (h : r.Abides P r') (op : BinaryOp) (right : Expr) :
    Run.Abides P paths (r.typeOperand op right) (r'.typeOperand op right) := by
  unfold Evaluator.typeOperand
  split
  · exact (h.resolveType _).atSpan _
  · exact (h.eval _ _).bind fun _ =>
      ((h.own (.typeOf _)).bind fun _ => fail _).atSpan _

theorem isExpr (h : r.Abides P r') (op : BinaryOp) (expected : Bool)
    (left right : Expr) :
    Run.Abides P paths (r.isExpr op expected left right) (r'.isExpr op expected left right) :=
  (h.eval _ _).bind fun _ => (h.typeOperand _ _).bind fun _ => (read _).bind fun _ => pure _

theorem castExpr (h : r.Abides P r') (left right : Expr) :
    Run.Abides P paths (r.castExpr left right) (r'.castExpr left right) :=
  (h.eval _ _).bind fun _ => (h.typeOperand _ _).bind fun _ => h.own (.cast _ _)

theorem dotExpr (h : r.Abides P r') (left right : Expr) :
    Run.Abides P paths (r.dotExpr left right) (r'.dotExpr left right) := by
  refine (h.eval _ _).bind fun target => ?_
  split
  · exact h.callExpr _ _ _ _
  · exact h.getMember _ _
  · exact (h.eval _ _).bind fun _ => (h.failOn _ _).atSpan _

theorem valueExpr (h : r.Abides P r') (op : BinaryOp) (left right : Expr) :
    Run.Abides P paths (r.valueExpr op left right) (r'.valueExpr op left right) := by
  refine (h.eval _ _).bind fun v => (h.eval _ _).bind fun w => ?_
  split
  · exact h.invoke _ _
  · exact h.applyBinary _ _ _

theorem binaryExpr (h : r.Abides P r') (op : BinaryOp)
    (left right : Expr) :
    Run.Abides P paths (r.binaryExpr op left right) (r'.binaryExpr op left right) := by
  unfold Evaluator.binaryExpr
  split
  · exact h.assignExpr _ _
  · exact h.own (Evaluator.Precedes.swapExpr _ _)
  · exact h.logicExpr _ _ _ _
  · exact h.logicExpr _ _ _ _
  · exact h.isExpr _ _ _ _
  · exact h.isExpr _ _ _ _
  · exact h.castExpr _ _
  · exact h.dotExpr _ _
  · exact h.valueExpr _ _ _

theorem setArrayElement (h : r.Abides P r') (id : ArrayId) (index : Value)
    (value : Expr) :
    Run.Abides P paths (r.setArrayElement id index value)
      (r'.setArrayElement id index value) := by
  refine (h.own (.position _)).bind fun i => (read _).bind fun _ => (h.eval _ _).bind fun _ =>
    (h.conform _ _).bind fun w => (read _).bind fun _ => Run.Abides.ite ?_ ?_
  · exact (h.own (.modifyStore fun σ => .setElement σ id i w)).bind fun _ => pure _
  · exact h.own (.atIndex _ _)

theorem setFieldAt (h : r.Abides P r') (decl : DataDecl) (cells : List CellId)
    (index : Value) (value : Expr) :
    Run.Abides P paths (r.setFieldAt decl cells index value)
      (r'.setFieldAt decl cells index value) :=
  (h.own (.position _)).bind fun _ => (h.own (.atIndex _ _)).bind fun _ =>
    (h.own (.atIndex _ _)).bind fun _ => (read _).bind fun _ => (h.eval _ _).bind fun _ =>
      h.own (.assign _ _ _)

theorem setCharacter (h : r.Abides P r') (target : Expr) (text : String) (index : Value)
    (value : Expr) :
    Run.Abides P paths (r.setCharacter target text index value)
      (r'.setCharacter target text index value) := by
  unfold Evaluator.setCharacter
  split
  · refine (h.own (.position _)).bind fun i => (h.eval _ _).bind fun v => ?_
    split
    · refine Run.Abides.ite ?_ (h.own (.atIndex _ _))
      exact (h.own (.cellOf _)).bind fun _ => (h.own (.assign _ _ _)).bind fun _ => pure _
    · exact h.failOn _ _
  · exact (fail _).atSpan _

theorem setIndexExpr (h : r.Abides P r') (target index value : Expr) :
    Run.Abides P paths (r.setIndexExpr target index value)
      (r'.setIndexExpr target index value) := by
  refine (h.eval _ _).bind fun t => (h.eval _ _).bind fun i => ?_
  split
  · exact h.setArrayElement _ _ _
  · exact h.setFieldAt _ _ _ _
  · exact h.setCharacter _ _ _ _
  · exact h.failOn _ _

theorem setMemberExpr (h : r.Abides P r') (target : Expr) (member : String)
    (value : Expr) :
    Run.Abides P paths (r.setMemberExpr target member value)
      (r'.setMemberExpr target member value) := by
  refine (h.eval _ _).bind fun t => ?_
  split
  · exact (require _ _).bind fun _ => (read _).bind fun _ => (h.eval _ _).bind fun _ =>
      h.own (.assign _ _ _)
  · exact (fail _).ite (fail _)
  · exact h.failOn _ _

theorem exprKind (h : r.Abides P r') (hint : Option Ty)
    (span : Span) (kind : ExprKind) :
    Run.Abides P paths (r.exprKind hint span kind) (r'.exprKind hint span kind) := by
  unfold Evaluator.exprKind
  split
  · exact pure _
  · exact pure _
  · exact (h.own (.cellOf _)).bind fun _ => read _
  · exact (h.resolveType _).bind fun _ => h.default _
  · exact h.arrayLiteral _ _
  · exact h.unaryExpr _ _
  · exact h.binaryExpr _ _ _
  · exact (h.eval _ _).bind fun _ => (h.eval _ _).bind fun _ =>
      h.own (Evaluator.Precedes.getIndex _ _)
  · exact h.setIndexExpr _ _ _
  · exact (h.eval _ _).bind fun _ => h.getMember _ _
  · exact h.setMemberExpr _ _ _
  · exact h.callExpr _ _ _ _
  · exact (h.resolveType _).bind fun _ => h.instantiate _ _
  · split
    · exact h.instantiate _ _
    · exact fail _
  · exact h.own (Evaluator.Precedes.enumEntry _ _)

theorem expr (h : r.Abides P r') (hint : Option Ty)
    (e : Expr) : Run.Abides P paths (r.expr hint e) (r'.expr hint e) :=
  (h.exprKind hint e.span e.kind).atSpan _

end Evaluator.Abides

end BasicScript
