import BasicScript.Eval.Fuel
import BasicScript.Proofs.Core.Statement

/-! # Expressions and the status of the core declarations

Calls and expressions leave the status as it is. So do all evaluators with
fuel, since each is made by the rules from one with less.
-/

namespace BasicScript

namespace Evaluator.KeepsCore

open Run.KeepsCore (of_local pure fail read failOn)

variable {r : Evaluator}

theorem arguments (h : r.KeepsCore) (args : List Argument) : (r.arguments args).KeepsCore := by
  have hargument : ∀ arg, (r.argument arg).KeepsCore := by
    rintro ⟨spread, e⟩
    cases spread with
    | true =>
      exact (h.eval _ _).bind fun v => ((of_local (.elementsOf v)).atSpan _).bind fun _ => pure _
    | false => exact .ite (pure _) ((h.eval _ _).bind fun _ => pure _)
  induction args with
  | nil => exact pure _
  | cons arg rest ih => exact (hargument arg).bind fun _ => ih.bind fun _ => pure _

theorem argumentValue (h : r.KeepsCore) (t : Ty) (arg : Pending) :
    (r.argumentValue t arg).KeepsCore := by
  cases arg
  · exact pure _
  · exact h.eval _ _

theorem bindArgument (h : r.KeepsCore) (p : Parameter) (arg : Option Pending) :
    (r.bindArgument p arg).KeepsCore := by
  cases arg with
  | none => exact pure _
  | some arg =>
    exact .ite (pure _) ((h.argumentValue _ _).bind fun _ =>
      (of_local (.conform _ _)).bind fun _ => pure _)

theorem bindFixed (h : r.KeepsCore) (ps : List Parameter) (args : List Pending) :
    (r.bindFixed ps args).KeepsCore := by
  induction ps generalizing args with
  | nil => exact pure _
  | cons p ps ih => exact (h.bindArgument p _).bind fun _ => (ih _).bind fun _ => pure _

theorem bindArguments (h : r.KeepsCore) (sub : Sub) (args : List Pending) :
    (r.bindArguments sub args).KeepsCore := by
  refine (h.bindFixed _ _).bind fun slots => ?_
  split
  · exact pure _
  · refine (Run.KeepsCore.mapM (fun arg => ?_) _).bind fun _ =>
      (of_local (.newArray _ _)).bind fun _ => pure _
    exact (h.argumentValue _ arg).bind fun _ => of_local (.conform _ _)

theorem filled (h : r.KeepsCore) (sub : Sub) (p : Parameter) (slot : Option Value) :
    (r.filled sub p slot).KeepsCore := by
  have hdefault : (r.parameterDefault sub p).KeepsCore := by
    unfold Evaluator.parameterDefault
    split
    · exact (h.eval _ _).inLiveScope _
    · exact h.default _
  cases slot
  · exact hdefault.bind fun _ => of_local (.conform _ _)
  · exact pure _

theorem fillDefaults (h : r.KeepsCore) (sub : Sub) (ps : List Parameter)
    (slots : List (Option Value)) : (r.fillDefaults sub ps slots).KeepsCore := by
  induction ps generalizing slots with
  | nil => exact pure _
  | cons p ps ih =>
    cases slots with
    | nil => exact pure _
    | cons slot slots => exact (h.filled sub p slot).bind fun _ => (ih slots).bind fun _ => pure _

theorem firstAccepting (h : r.KeepsCore) (name : String) (args : List Pending)
    (subs : List Sub) : (r.firstAccepting name args subs).KeepsCore := by
  induction subs with
  | nil => exact fail _
  | cons sub rest ih =>
    exact (h.bindArguments sub args).either
      (fun slots => (h.fillDefaults sub _ slots).bind fun _ => pure _)
      fun e => .ite ih (.stop e)

theorem resolveOverload (h : r.KeepsCore) (name : String) (args : List Pending) :
    (r.resolveOverload name args).KeepsCore := by
  have hfitting : (Evaluator.fittingOverloads name args.length).KeepsCore := by
    refine (read _).bind fun candidates => ?_
    have hsome : ∀ fitting : List Sub, Run.KeepsCore (do
        if fitting.isEmpty then Run.fail (.unresolvedPositions name)
        return Sub.byArity fitting : Run (List Sub)) :=
      fun fitting => .ite ((fail _).bind fun _ => pure _) (pure _)
    exact .ite ((fail _).bind fun _ => hsome _) (hsome _)
  exact hfitting.bind fun _ => h.firstAccepting name args _

theorem callNative (h : r.KeepsCore) (sub : Sub) (bound : List Value) :
    (r.callNative sub bound).KeepsCore := by
  unfold Evaluator.callNative
  split
  · exact fail _
  · next native hlookup =>
    exact (h.library _ _ hlookup _ h.invoke bound).bind fun v => (read _).bind fun _ =>
      .ite (pure v) (failOn _ v)

theorem declareParameters (ps : List Parameter) (vs : List Value) :
    (Evaluator.declareParameters ps vs).KeepsCore := by
  induction ps generalizing vs with
  | nil => exact pure _
  | cons p ps ih =>
    cases vs with
    | nil => exact pure _
    | cons v vs => exact (Run.KeepsCore.declareVariable _ _).bind fun _ => ih vs

theorem initialResult (h : r.KeepsCore) (t : Ty) : (r.initialResult t).KeepsCore := by
  refine (h.default t).either pure fun e => ?_
  split
  · exact pure _
  · exact .stop e

theorem bodyResult (sub : Sub) (slot : CellId) (flow : Flow) :
    (Evaluator.bodyResult sub slot flow).KeepsCore := by
  unfold Evaluator.bodyResult
  split
  · exact (read _).bind fun _ => .ite (fail _) (pure _)
  · exact (read _).bind fun _ => .ite (fail _) (pure _)
  · exact of_local (.fit _ _ fun _ _ => rfl)
  · exact fail _

theorem runBody (h : r.KeepsCore) (sub : Sub) (bound : List Value) :
    (r.runBody sub bound).KeepsCore :=
  .inLiveScope sub.scope <| (declareParameters _ _).bind fun _ => (h.initialResult _).bind fun _ =>
    (Run.KeepsCore.declareVariable _ _).bind fun _ => ((h.block _).returning _).bind fun _ =>
      bodyResult _ _ _

theorem callPending (h : r.KeepsCore) (name : String) (args : List Pending) (span : Span) :
    (r.callPending name args span).KeepsCore :=
  (h.resolveOverload name args).bind fun _ =>
    .asCall _ (.ite (h.callNative _ _) (h.runBody _ _))

theorem callValues (h : r.KeepsCore) (name : String) (values : List Value) :
    (r.callValues name values).KeepsCore := h.callPending _ _ _

theorem callExpr (h : r.KeepsCore) (name : String) (receiver : Option Value)
    (args : List Argument) (span : Span) : (r.callExpr name receiver args span).KeepsCore :=
  (h.arguments args).bind fun _ => h.callPending _ _ _

theorem unaryExpr (h : r.KeepsCore) (op : UnaryOp) (operand : Expr) :
    (r.unaryExpr op operand).KeepsCore := by
  refine (h.eval _ _).bind fun v => ?_
  split
  · exact (read _).bind fun _ => .ite (h.invoke _ _) (of_local (op.apply_local _))
  · exact of_local (op.apply_local _)

theorem assignExpr (h : r.KeepsCore) (left right : Expr) :
    (r.assignExpr left right).KeepsCore := by
  unfold Evaluator.assignExpr
  split
  · exact (Run.KeepsCore.cellOf _).bind fun _ => (read _).bind fun _ => (h.eval _ _).bind fun _ =>
      of_local (.assign _ _ _)
  · exact (fail _).atSpan _

theorem swapExpr (left right : Expr) : (Evaluator.swapExpr left right).KeepsCore := by
  unfold Evaluator.swapExpr
  split
  · exact (Run.KeepsCore.cellOf _).bind fun _ => (Run.KeepsCore.cellOf _).bind fun _ =>
      of_local (.exchange _ _ _ _)
  · exact fail _

theorem logicExpr (h : r.KeepsCore) (op : BinaryOp) (decisive : Bool) (left right : Expr) :
    (r.logicExpr op decisive left right).KeepsCore := by
  refine (h.eval _ _).bind fun v => ?_
  split
  · refine .ite (pure _) ((h.eval _ _).bind fun w => ?_)
    split
    · exact pure _
    · exact (failOn _ _).atSpan _
  · exact (failOn _ _).atSpan _

theorem typeOperand (h : r.KeepsCore) (op : BinaryOp) (right : Expr) :
    (r.typeOperand op right).KeepsCore := by
  unfold Evaluator.typeOperand
  split
  · exact (h.resolveType _).atSpan _
  · exact (h.eval _ _).bind fun _ => ((of_local (.typeOf _)).bind fun _ => fail _).atSpan _

theorem isExpr (h : r.KeepsCore) (op : BinaryOp) (expected : Bool) (left right : Expr) :
    (r.isExpr op expected left right).KeepsCore :=
  (h.eval _ _).bind fun _ => (h.typeOperand _ _).bind fun _ => (read _).bind fun _ => pure _

theorem castExpr (h : r.KeepsCore) (left right : Expr) : (r.castExpr left right).KeepsCore :=
  (h.eval _ _).bind fun v => (h.typeOperand _ _).bind fun t => of_local (.cast t v)

theorem dotExpr (h : r.KeepsCore) (left right : Expr) : (r.dotExpr left right).KeepsCore := by
  refine (h.eval _ _).bind fun target => ?_
  split
  · exact h.callExpr _ _ _ _
  · exact of_local (getMember_local _ _)
  · exact (h.eval _ _).bind fun _ => (failOn _ _).atSpan _

theorem valueExpr (h : r.KeepsCore) (op : BinaryOp) (left right : Expr) :
    (r.valueExpr op left right).KeepsCore := by
  refine (h.eval _ _).bind fun v => (h.eval _ _).bind fun w => ?_
  split
  · exact h.invoke _ _
  · exact of_local (applyBinary_local _ _ _)

theorem binaryExpr (h : r.KeepsCore) (op : BinaryOp) (left right : Expr) :
    (r.binaryExpr op left right).KeepsCore := by
  unfold Evaluator.binaryExpr
  split
  · exact h.assignExpr _ _
  · exact swapExpr _ _
  · exact h.logicExpr _ _ _ _
  · exact h.logicExpr _ _ _ _
  · exact h.isExpr _ _ _ _
  · exact h.isExpr _ _ _ _
  · exact h.castExpr _ _
  · exact h.dotExpr _ _
  · exact h.valueExpr _ _ _

theorem setArrayElement (h : r.KeepsCore) (id : ArrayId) (index : Value) (value : Expr) :
    (r.setArrayElement id index value).KeepsCore :=
  (of_local (.position index)).bind fun _ => (read _).bind fun _ => (h.eval _ _).bind fun _ =>
    (of_local (.conform _ _)).bind fun _ => (read _).bind fun _ =>
      .ite ((of_local (.modifyStore _)).bind fun _ => pure _) (of_local (.atIndex _ _))

theorem setFieldAt (h : r.KeepsCore) (decl : DataDecl) (cells : List CellId) (index : Value)
    (value : Expr) : (r.setFieldAt decl cells index value).KeepsCore :=
  (of_local (.position index)).bind fun _ => (of_local (.atIndex _ _)).bind fun _ =>
    (of_local (.atIndex _ _)).bind fun _ => (read _).bind fun _ => (h.eval _ _).bind fun _ =>
      of_local (.assign _ _ _)

theorem setCharacter (h : r.KeepsCore) (target : Expr) (text : String) (index : Value)
    (value : Expr) : (r.setCharacter target text index value).KeepsCore := by
  unfold Evaluator.setCharacter
  split
  · refine (of_local (.position index)).bind fun i => (h.eval _ _).bind fun v => ?_
    split
    · exact .ite ((Run.KeepsCore.cellOf _).bind fun _ => (of_local (.assign _ _ _)).bind fun _ =>
        pure _) (of_local (.atIndex _ _))
    · exact failOn _ _
  · exact (fail _).atSpan _

theorem setIndexExpr (h : r.KeepsCore) (target index value : Expr) :
    (r.setIndexExpr target index value).KeepsCore := by
  refine (h.eval _ _).bind fun t => (h.eval _ _).bind fun i => ?_
  split
  · exact h.setArrayElement _ _ _
  · exact h.setFieldAt _ _ _ _
  · exact h.setCharacter _ _ _ _
  · exact failOn _ _

theorem setMemberExpr (h : r.KeepsCore) (target : Expr) (member : String) (value : Expr) :
    (r.setMemberExpr target member value).KeepsCore := by
  refine (h.eval _ _).bind fun t => ?_
  split
  · exact (of_local (fieldCell_local _ _ _)).bind fun _ => (read _).bind fun _ =>
      (h.eval _ _).bind fun _ => of_local (.assign _ _ _)
  · exact .ite (fail _) (fail _)
  · exact failOn _ _

theorem enumEntry (enum entry : String) : (Evaluator.enumEntry enum entry).KeepsCore :=
  (read _).bind fun _ => (Run.KeepsCore.require _ _).bind fun _ => .require _ _

theorem exprKind (h : r.KeepsCore) (hint : Option Ty) (span : Span) (kind : ExprKind) :
    (r.exprKind hint span kind).KeepsCore := by
  unfold Evaluator.exprKind
  split
  · exact pure _
  · exact pure _
  · exact (Run.KeepsCore.cellOf _).bind fun _ => read _
  · exact (h.resolveType _).bind fun _ => h.default _
  · exact h.arrayLiteral _ _
  · exact h.unaryExpr _ _
  · exact h.binaryExpr _ _ _
  · exact (h.eval _ _).bind fun _ => (h.eval _ _).bind fun _ => of_local (getIndex_local _ _)
  · exact h.setIndexExpr _ _ _
  · exact (h.eval _ _).bind fun _ => of_local (getMember_local _ _)
  · exact h.setMemberExpr _ _ _
  · exact h.callExpr _ _ _ _
  · exact (h.resolveType _).bind fun _ => h.instantiate _ _
  · split
    · exact h.instantiate _ _
    · exact fail _
  · exact enumEntry _ _

theorem expr (h : r.KeepsCore) (hint : Option Ty) (e : Expr) : (r.expr hint e).KeepsCore :=
  (h.exprKind hint e.span e.kind).atSpan _

end Evaluator.KeepsCore

/-- Nothing but the requests of a host changes the status of the core declarations. -/
theorem Evaluator.ofFuel_keepsCore {library : Library} (hl : library.KeepsCore) (fuel : Nat) :
    (ofFuel library fuel).KeepsCore := by
  induction fuel with
  | zero =>
    exact ⟨hl, fun _ _ => .exhausted, fun _ => .exhausted, fun _ => .exhausted,
      fun _ _ => .exhausted⟩
  | succ fuel ih => exact ⟨hl, ih.expr, ih.stmt, ih.defaultValue, ih.callValues⟩

end BasicScript
