import BasicScript.Eval.Expr
import BasicScript.Proofs.Frame.Statement

/-! # Frames of calls and expressions

A call works in scopes of its own, below that of the declaration, and every
expression is a closed frame. The natives of the library must track themselves
over callers that track each other.
-/

namespace BasicScript

/-- The functions of a library are closed frames, over callers that are. -/
def Library.Framed (c : Prop) (l : Library) : Prop :=
  ∀ signature native, l.lookup signature = some native → ∀ call call' : Caller,
    (∀ name args, Run.Tracks none c False (call name args) (call' name args)) →
      ∀ args, Run.Tracks none c False (native.function call args) (native.function call' args)

namespace Evaluator.Precedes

open Run (Tracks)
open Run.Tracks (read require pure fail failOn)

variable {ρ : Option (List Ty)} {c o : Prop} {r r' : Evaluator}

theorem argument (h : r.Precedes none c r') (arg : Argument) :
    Tracks none c False (r.argument arg) (r'.argument arg) := by
  obtain ⟨spread, e⟩ := arg
  cases spread with
  | true =>
    exact (h.eval _ _).bind fun v => ((Run.Tracks.elementsOf v).atSpan _).bind fun _ => pure _
  | false => exact (pure _).ite ((h.eval _ _).bind fun _ => pure _)

theorem arguments (h : r.Precedes none c r') (args : List Argument) :
    Tracks none c False (r.arguments args) (r'.arguments args) := by
  induction args with
  | nil => exact pure _
  | cons arg rest ih => exact (h.argument arg).bind fun _ => ih.bind fun _ => pure _

theorem argumentValue (h : r.Precedes none c r') (t : Ty) (arg : Pending) :
    Tracks none c False (r.argumentValue t arg) (r'.argumentValue t arg) := by
  cases arg
  · exact pure _
  · exact h.eval _ _

theorem bindArgument (h : r.Precedes none c r') (p : Parameter) (arg : Option Pending) :
    Tracks none c False (r.bindArgument p arg) (r'.bindArgument p arg) := by
  cases arg with
  | none => exact pure _
  | some arg =>
    exact (pure _).ite ((h.argumentValue _ _).bind fun _ =>
      (Run.Tracks.conform _ _).bind fun _ => pure _)

theorem bindFixed (h : r.Precedes none c r') (ps : List Parameter) (args : List Pending) :
    Tracks none c False (r.bindFixed ps args) (r'.bindFixed ps args) := by
  induction ps generalizing args with
  | nil => exact pure _
  | cons p ps ih => exact (h.bindArgument p _).bind fun _ => (ih _).bind fun _ => pure _

theorem bindArguments (h : r.Precedes none c r') (sub : Sub) (args : List Pending) :
    Tracks none c False (r.bindArguments sub args) (r'.bindArguments sub args) := by
  refine (h.bindFixed _ _).bind fun slots => ?_
  split
  · exact pure _
  · refine (Run.Tracks.mapM (fun arg => ?_) _).bind fun _ =>
      (Run.Tracks.newArray _ _).bind fun _ => pure _
    exact (h.argumentValue _ arg).bind fun _ => Run.Tracks.conform _ _

theorem parameterDefault (h : r.Precedes none c r') (sub : Sub) (p : Parameter) :
    Tracks none c False (r.parameterDefault sub p) (r'.parameterDefault sub p) := by
  unfold Evaluator.parameterDefault
  split
  · exact (h.eval _ _).inLiveScope _
  · exact h.default _

theorem filled (h : r.Precedes none c r') (sub : Sub) (p : Parameter) (slot : Option Value) :
    Tracks none c False (r.filled sub p slot) (r'.filled sub p slot) := by
  cases slot
  · exact (h.parameterDefault sub p).bind fun _ => Run.Tracks.conform _ _
  · exact pure _

theorem fillDefaults (h : r.Precedes none c r') (sub : Sub) (ps : List Parameter)
    (slots : List (Option Value)) :
    Tracks none c False (r.fillDefaults sub ps slots) (r'.fillDefaults sub ps slots) := by
  induction ps generalizing slots with
  | nil => exact pure _
  | cons p ps ih =>
    cases slots with
    | nil => exact pure _
    | cons slot slots => exact (h.filled sub p slot).bind fun _ => (ih slots).bind fun _ => pure _

theorem firstAccepting (h : r.Precedes none c r') (name : String) (args : List Pending)
    (subs : List Sub) :
    Tracks none c False (r.firstAccepting name args subs) (r'.firstAccepting name args subs) := by
  induction subs with
  | nil => exact fail _
  | cons sub rest ih =>
    exact (h.bindArguments sub args).either
      (fun slots => (h.fillDefaults sub _ slots).bind fun _ => pure _)
      fun e => ih.ite (Run.Tracks.stop e)

theorem fittingOverloads (name : String) (count : Nat) :
    Tracks none c o (Evaluator.fittingOverloads name count)
      (Evaluator.fittingOverloads name count) := by
  refine (read _).bind fun candidates => Run.Tracks.ite ((fail _).bind fun _ => ?_) ?_
  · exact ((fail _).bind fun _ => pure _).ite (pure _)
  · exact ((fail _).bind fun _ => pure _).ite (pure _)

theorem resolveOverload (h : r.Precedes none c r') (name : String) (args : List Pending) :
    Tracks none c False (r.resolveOverload name args) (r'.resolveOverload name args) :=
  (fittingOverloads name _).bind fun _ => h.firstAccepting name args _

theorem callNative (h : r.Precedes none c r') (hl : r'.library.Framed c) (sub : Sub)
    (bound : List Value) :
    Tracks none c False (r.callNative sub bound) (r'.callNative sub bound) := by
  unfold Evaluator.callNative
  rw [h.library]
  split
  · exact fail _
  · next native hlookup =>
    exact (hl _ _ hlookup _ _ h.invoke bound).bind fun v => (read _).bind fun _ =>
      (Run.Tracks.pure v).ite (failOn _ v)

theorem declareParameters (ps : List Parameter) (vs : List Value) :
    Tracks ρ c True (Evaluator.declareParameters ps vs) (Evaluator.declareParameters ps vs) := by
  induction ps generalizing vs with
  | nil => exact pure _
  | cons p ps ih =>
    cases vs with
    | nil => exact pure _
    | cons v vs => exact (Run.Tracks.declareVariable _ _).bind fun _ => ih vs

theorem initialResult (h : ∀ t, Tracks ρ c False (r.default t) (r'.default t)) (t : Ty) :
    Tracks ρ c False (r.initialResult t) (r'.initialResult t) := by
  refine (h t).either pure fun e => ?_
  split
  · exact pure _
  · exact Run.Tracks.stop e

theorem bodyResult (sub : Sub) (slot : CellId) (flow : Flow) :
    Tracks ρ c o (Evaluator.bodyResult sub slot flow)
      (Evaluator.bodyResult sub slot flow) := by
  unfold Evaluator.bodyResult
  split
  · exact (read _).bind fun _ => (fail _).ite (pure _)
  · exact (read _).bind fun _ => (fail _).ite (pure _)
  · exact Run.Tracks.fit _ _ _
  · exact fail _

/-- The statements of the body run on top of the return type of the sub. -/
theorem runBody (h : ∀ t, Tracks ρ c False (r.default t) (r'.default t)) {sub : Sub}
    (hbody : Tracks (ρ.map (sub.returns :: ·)) c True (r.block sub.body) (r'.block sub.body))
    (bound : List Value) : Tracks ρ c False (r.runBody sub bound) (r'.runBody sub bound) := by
  refine Run.Tracks.inLiveScope (o := True) sub.scope ?_
  exact (declareParameters _ _).bind fun _ => (initialResult h _).opened.bind fun _ =>
    (Run.Tracks.declareVariable _ _).bind fun _ => (hbody.returning _).bind fun _ =>
      bodyResult _ _ _

theorem callSub (h : r.Precedes none c r') (hl : r'.library.Framed c) (sub : Sub)
    (bound : List Value) (span : Span) :
    Tracks none c False (r.callSub sub bound span) (r'.callSub sub bound span) :=
  Run.Tracks.asCall _ ((h.callNative hl sub bound).ite (runBody h.default (h.block _) bound))

theorem callPending (h : r.Precedes none c r') (hl : r'.library.Framed c) (name : String)
    (args : List Pending) (span : Span) :
    Tracks none c False (r.callPending name args span) (r'.callPending name args span) :=
  (h.resolveOverload name args).bind fun _ => h.callSub hl _ _ span

theorem callValues (h : r.Precedes none c r') (hl : r'.library.Framed c) (name : String)
    (values : List Value) :
    Tracks none c False (r.callValues name values) (r'.callValues name values) :=
  h.callPending hl _ _ _

theorem callExpr (h : r.Precedes none c r') (hl : r'.library.Framed c) (name : String)
    (receiver : Option Value) (args : List Argument) (span : Span) :
    Tracks none c False (r.callExpr name receiver args span)
      (r'.callExpr name receiver args span) :=
  (h.arguments args).bind fun _ => h.callPending hl _ _ _

theorem applyBinary (op : BinaryOp) (v w : Value) :
    Tracks none c o (Evaluator.applyBinary op v w) (Evaluator.applyBinary op v w) := by
  refine (Run.Tracks.ending _).bind fun _ => (read _).bind fun result => ?_
  split
  · exact pure _
  · exact fail _

theorem applyUnary (op : UnaryOp) (v : Value) :
    Tracks none c o (op.apply v) (op.apply v) := by
  have hlength : ∀ n, Tracks none c o (UnaryOp.lengthValue n) (UnaryOp.lengthValue n) :=
    fun n => (pure _).ite (fail _)
  unfold UnaryOp.apply
  split
  · exact pure _
  · exact pure _
  · exact hlength _
  · exact (read _).bind fun _ => hlength _
  · exact (Run.Tracks.text _).bind fun _ => pure _
  · exact pure _
  · exact (read _).bind fun _ => Run.Tracks.newArray _ _
  · exact failOn _ _

theorem unaryExpr (h : r.Precedes none c r') (op : UnaryOp) (operand : Expr) :
    Tracks none c False (r.unaryExpr op operand) (r'.unaryExpr op operand) := by
  refine (h.eval _ _).bind fun v => ?_
  split
  · exact (read _).bind fun _ => (h.invoke _ _).ite (applyUnary op _)
  · exact applyUnary op _

theorem assignExpr (h : r.Precedes none c r') (left right : Expr) :
    Tracks none c False (r.assignExpr left right) (r'.assignExpr left right) := by
  unfold Evaluator.assignExpr
  split
  · exact (Run.Tracks.cellOf _).bind fun _ => (read _).bind fun _ => (h.eval _ _).bind fun _ =>
      Run.Tracks.assign _ _ _
  · exact (fail _).atSpan _

theorem swapExpr (left right : Expr) :
    Tracks none c o (Evaluator.swapExpr left right) (Evaluator.swapExpr left right) := by
  unfold Evaluator.swapExpr
  split
  · exact (Run.Tracks.cellOf _).bind fun _ => (Run.Tracks.cellOf _).bind fun _ =>
      Run.Tracks.exchange _ _ _ _
  · exact fail _

theorem logicExpr (h : r.Precedes none c r') (op : BinaryOp) (decisive : Bool)
    (left right : Expr) :
    Tracks none c False (r.logicExpr op decisive left right)
      (r'.logicExpr op decisive left right) := by
  refine (h.eval _ _).bind fun v => ?_
  split
  · refine (pure _).ite ((h.eval _ _).bind fun w => ?_)
    split
    · exact pure _
    · exact (failOn _ _).atSpan _
  · exact (failOn _ _).atSpan _

theorem typeOperand (h : r.Precedes none c r') (op : BinaryOp) (right : Expr) :
    Tracks none c False (r.typeOperand op right) (r'.typeOperand op right) := by
  unfold Evaluator.typeOperand
  split
  · exact (h.resolveType _).atSpan _
  · exact (h.eval _ _).bind fun _ =>
      ((Run.Tracks.typeOf _).bind fun _ => fail _).atSpan _

theorem isExpr (h : r.Precedes none c r') (op : BinaryOp) (expected : Bool)
    (left right : Expr) :
    Tracks none c False (r.isExpr op expected left right) (r'.isExpr op expected left right) :=
  (h.eval _ _).bind fun _ => (h.typeOperand _ _).bind fun _ => (read _).bind fun _ => pure _

theorem castExpr (h : r.Precedes none c r') (left right : Expr) :
    Tracks none c False (r.castExpr left right) (r'.castExpr left right) :=
  (h.eval _ _).bind fun _ => (h.typeOperand _ _).bind fun _ => Run.Tracks.cast _ _

theorem fieldCell (decl : DataDecl) (cells : List CellId) (member : String) :
    Tracks none c o (Evaluator.fieldCell decl cells member)
      (Evaluator.fieldCell decl cells member) := require _ _

theorem getMember (target : Value) (member : String) :
    Tracks none c o (Evaluator.getMember target member) (Evaluator.getMember target member) := by
  unfold Evaluator.getMember
  split
  · exact (fieldCell _ _ _).bind fun _ => read _
  · split
    · exact pure _
    · exact pure _
    · exact pure _
    · exact fail _
  · exact failOn _ _

theorem dotExpr (h : r.Precedes none c r') (hl : r'.library.Framed c) (left right : Expr) :
    Tracks none c False (r.dotExpr left right) (r'.dotExpr left right) := by
  refine (h.eval _ _).bind fun target => ?_
  split
  · exact h.callExpr hl _ _ _ _
  · exact getMember _ _
  · exact (h.eval _ _).bind fun _ => (failOn _ _).atSpan _

theorem valueExpr (h : r.Precedes none c r') (op : BinaryOp) (left right : Expr) :
    Tracks none c False (r.valueExpr op left right) (r'.valueExpr op left right) := by
  refine (h.eval _ _).bind fun v => (h.eval _ _).bind fun w => ?_
  split
  · exact h.invoke _ _
  · exact applyBinary _ _ _

theorem binaryExpr (h : r.Precedes none c r') (hl : r'.library.Framed c) (op : BinaryOp)
    (left right : Expr) :
    Tracks none c False (r.binaryExpr op left right) (r'.binaryExpr op left right) := by
  unfold Evaluator.binaryExpr
  split
  · exact h.assignExpr _ _
  · exact swapExpr _ _
  · exact h.logicExpr _ _ _ _
  · exact h.logicExpr _ _ _ _
  · exact h.isExpr _ _ _ _
  · exact h.isExpr _ _ _ _
  · exact h.castExpr _ _
  · exact h.dotExpr hl _ _
  · exact h.valueExpr _ _ _

theorem getIndex (target index : Value) :
    Tracks none c o (Evaluator.getIndex target index) (Evaluator.getIndex target index) := by
  unfold Evaluator.getIndex
  split
  · exact (Run.Tracks.position _).bind fun _ => Run.Tracks.atIndex _ _
  · exact (Run.Tracks.position _).bind fun _ => (read _).bind fun _ => Run.Tracks.atIndex _ _
  · exact (Run.Tracks.position _).bind fun _ => (read _).bind fun _ => Run.Tracks.atIndex _ _
  · exact failOn _ _

theorem setArrayElement (h : r.Precedes none c r') (id : ArrayId) (index : Value)
    (value : Expr) :
    Tracks none c False (r.setArrayElement id index value)
      (r'.setArrayElement id index value) := by
  refine (Run.Tracks.position _).bind fun i => (read _).bind fun _ => (h.eval _ _).bind fun _ =>
    (Run.Tracks.conform _ _).bind fun w => (read _).bind fun _ => Run.Tracks.ite ?_ ?_
  · exact (Run.Tracks.modifyStore fun σ => .setElement σ id i w).bind fun _ => pure _
  · exact Run.Tracks.atIndex _ _

theorem setFieldAt (h : r.Precedes none c r') (decl : DataDecl) (cells : List CellId)
    (index : Value) (value : Expr) :
    Tracks none c False (r.setFieldAt decl cells index value)
      (r'.setFieldAt decl cells index value) :=
  (Run.Tracks.position _).bind fun _ => (Run.Tracks.atIndex _ _).bind fun _ =>
    (Run.Tracks.atIndex _ _).bind fun _ => (read _).bind fun _ => (h.eval _ _).bind fun _ =>
      Run.Tracks.assign _ _ _

theorem setCharacter (h : r.Precedes none c r') (target : Expr) (text : String) (index : Value)
    (value : Expr) :
    Tracks none c False (r.setCharacter target text index value)
      (r'.setCharacter target text index value) := by
  unfold Evaluator.setCharacter
  split
  · refine (Run.Tracks.position _).bind fun i => (h.eval _ _).bind fun v => ?_
    split
    · refine Run.Tracks.ite ?_ (Run.Tracks.atIndex _ _)
      exact (Run.Tracks.cellOf _).bind fun _ => (Run.Tracks.assign _ _ _).bind fun _ => pure _
    · exact failOn _ _
  · exact (fail _).atSpan _

theorem setIndexExpr (h : r.Precedes none c r') (target index value : Expr) :
    Tracks none c False (r.setIndexExpr target index value)
      (r'.setIndexExpr target index value) := by
  refine (h.eval _ _).bind fun t => (h.eval _ _).bind fun i => ?_
  split
  · exact h.setArrayElement _ _ _
  · exact h.setFieldAt _ _ _ _
  · exact h.setCharacter _ _ _ _
  · exact failOn _ _

theorem setMemberExpr (h : r.Precedes none c r') (target : Expr) (member : String)
    (value : Expr) :
    Tracks none c False (r.setMemberExpr target member value)
      (r'.setMemberExpr target member value) := by
  refine (h.eval _ _).bind fun t => ?_
  split
  · exact (fieldCell _ _ _).bind fun _ => (read _).bind fun _ => (h.eval _ _).bind fun _ =>
      Run.Tracks.assign _ _ _
  · exact (fail _).ite (fail _)
  · exact failOn _ _

theorem enumEntry (enum entry : String) :
    Tracks none c o (Evaluator.enumEntry enum entry) (Evaluator.enumEntry enum entry) :=
  (read _).bind fun _ => (require _ _).bind fun _ => require _ _

theorem exprKind (h : r.Precedes none c r') (hl : r'.library.Framed c) (hint : Option Ty)
    (span : Span) (kind : ExprKind) :
    Tracks none c False (r.exprKind hint span kind) (r'.exprKind hint span kind) := by
  unfold Evaluator.exprKind
  split
  · exact pure _
  · exact pure _
  · exact (Run.Tracks.cellOf _).bind fun _ => read _
  · exact (h.resolveType _).bind fun _ => h.default _
  · exact h.arrayLiteral _ _
  · exact h.unaryExpr _ _
  · exact h.binaryExpr hl _ _ _
  · exact (h.eval _ _).bind fun _ => (h.eval _ _).bind fun _ => getIndex _ _
  · exact h.setIndexExpr _ _ _
  · exact (h.eval _ _).bind fun _ => getMember _ _
  · exact h.setMemberExpr _ _ _
  · exact h.callExpr hl _ _ _ _
  · exact (h.resolveType _).bind fun _ => h.instantiate _ _
  · split
    · exact h.instantiate _ _
    · exact fail _
  · exact enumEntry _ _

theorem expr (h : r.Precedes none c r') (hl : r'.library.Framed c) (hint : Option Ty)
    (e : Expr) : Tracks none c False (r.expr hint e) (r'.expr hint e) :=
  (h.exprKind hl hint e.span e.kind).atSpan _

end Evaluator.Precedes

end BasicScript
