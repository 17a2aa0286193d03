import BasicScript.Proofs.Reports.Statement

/-! # Reports of calls and expressions

An error in the body of a sub leaves statements of the body, and then the
call. While an overload is chosen, faults about types are dropped with all
that they have noted; so are defaults that a result slot does without.
-/

namespace BasicScript

namespace Evaluator.Reporting

open Run (Reports)
open Run.Reports (read require pure fail failOn of_local)

variable {r : Notes → Evaluator} {parts : List Stmt}

section Overloads

/-! ## Arguments and overloads -/

theorem fittingOverloads (name : String) (count : Nat) :
    Reports parts fun _ => Evaluator.fittingOverloads name count :=
  (read _).bind fun _ => .guarded _ (.guarded _ (pure _))

variable (h : Reporting r)

include h

theorem argument (arg : Argument) : Reports parts fun ν => (r ν).argument arg := by
  obtain ⟨spread, e⟩ := arg
  cases spread with
  | true =>
    refine (h.eval none e).bind fun v => ?_
    exact ((of_local (.elementsOf v)).atSpan e.span).bind fun _ => pure _
  | false => exact (pure _).ite ((h.eval none e).bind fun _ => pure _)

theorem arguments (args : List Argument) : Reports parts fun ν => (r ν).arguments args := by
  induction args with
  | nil => exact pure _
  | cons arg rest ih => exact (h.argument arg).bind fun _ => ih.bind fun _ => pure _

theorem argumentValue (t : Ty) (arg : Pending) :
    Reports parts fun ν => (r ν).argumentValue t arg := by
  cases arg with
  | ready v => exact pure v
  | deferred e => exact h.eval _ e

theorem bindArgument (p : Parameter) (arg : Option Pending) :
    Reports parts fun ν => (r ν).bindArgument p arg := by
  cases arg with
  | none => exact pure _
  | some arg =>
    exact (pure _).ite ((h.argumentValue p.type arg).bind fun _ =>
      (Reports.conform _ _).bind fun _ => pure _)

theorem bindFixed (ps : List Parameter) (args : List Pending) :
    Reports parts fun ν => (r ν).bindFixed ps args := by
  induction ps generalizing args with
  | nil => exact pure _
  | cons p ps ih => exact (h.bindArgument p _).bind fun _ => (ih _).bind fun _ => pure _

theorem bindArguments (sub : Sub) (args : List Pending) :
    Reports parts fun ν => (r ν).bindArguments sub args := by
  refine (h.bindFixed sub.fixed args).bind fun slots => ?_
  cases sub.vararg? with
  | none => exact pure _
  | some p =>
    refine (Reports.mapM (fun arg => ?_) _).bind fun tail =>
      (of_local (.newArray _ tail)).bind fun _ => pure _
    exact (h.argumentValue _ arg).bind fun _ => Reports.conform _ _

theorem parameterDefault (sub : Sub) (p : Parameter) :
    Reports parts fun ν => (r ν).parameterDefault sub p := by
  simp only [Evaluator.parameterDefault]
  cases p.default with
  | some e => exact (h.eval _ e).inLiveScope sub.scope
  | none => exact h.default _

theorem filled (sub : Sub) (p : Parameter) (slot : Option Value) :
    Reports parts fun ν => (r ν).filled sub p slot := by
  cases slot with
  | some v => exact pure v
  | none => exact (h.parameterDefault sub p).bind fun _ => Reports.conform _ _

theorem fillDefaults (sub : Sub) (ps : List Parameter) (slots : List (Option Value)) :
    Reports parts fun ν => (r ν).fillDefaults sub ps slots := by
  induction ps generalizing slots with
  | nil => exact pure _
  | cons p ps ih =>
    cases slots with
    | nil => exact pure _
    | cons slot slots => exact (h.filled sub p slot).bind fun _ => (ih slots).bind fun _ => pure _

/-- An overload is dropped for a fault about types, whatever was left with it; any other error
stays as it is. -/
theorem firstAccepting (name : String) (args : List Pending) (subs : List Sub) :
    Reports parts fun ν => (r ν).firstAccepting name args subs := by
  induction subs with
  | nil => exact fail _
  | cons sub rest ih =>
    refine (h.bindArguments sub args).either
      (fun slots => (h.fillDefaults sub sub.params slots).bind fun _ => pure _) fun g => ?_
    cases hg : g.isTypeFault with
    | true => exact .inr ⟨_, ih, fun ν e he => by simp only [he, hg, if_true]⟩
    | false => exact .inl fun ν e he => by simp only [he, hg, Bool.false_eq_true, if_false]

theorem resolveOverload (name : String) (args : List Pending) :
    Reports parts fun ν => (r ν).resolveOverload name args :=
  (fittingOverloads name args.length).bind fun _ => h.firstAccepting name args _

end Overloads

section Calls

/-! ## Calls -/

theorem declareParameters (ps : List Parameter) (vs : List Value) :
    Reports parts fun _ => Evaluator.declareParameters ps vs := by
  induction ps generalizing vs with
  | nil => exact pure _
  | cons p ps ih =>
    cases vs with
    | nil => exact pure _
    | cons v vs => exact (Reports.declareVariable _ _).bind fun _ => ih vs

theorem bodyResult (sub : Sub) (slot : CellId) (flow : Flow) :
    Reports parts fun _ => Evaluator.bodyResult sub slot flow := by
  have hslot : Reports parts fun _ => (do
      let v ← Run.read fun s => s.store.read slot
      if v.isMissing then Run.fail (.noYield sub.name) else Pure.pure v : Run Value) :=
    (read _).bind fun _ => (fail _).ite (pure _)
  cases flow with
  | normal => exact hslot
  | signal s =>
    cases s with
    | leave => exact hslot
    | yield v => exact of_local (.fit sub.returns v fun _ _ => rfl)
    | _ => exact fail _

variable (h : Reporting r)

include h

theorem callNative (sub : Sub) (bound : List Value) :
    Reports parts fun ν => (r ν).callNative sub bound := by
  obtain ⟨x, hx, hsame⟩ := callNative_local sub bound
  simp only [hsame _ (h.library _)]
  exact of_local hx

theorem initialResult (t : Ty) : Reports parts fun ν => (r ν).initialResult t := by
  refine (h.default t).either pure fun g => ?_
  cases g with
  | noDefault t =>
    -- the missing value takes the place of this error and of what it has noted
    exact .inr ⟨_, pure .empty, fun ν e he => by simp only [he]⟩
  | _ => exact .inl fun ν e he => by simp only [he]

theorem runBody (sub : Sub) (bound : List Value) :
    Reports sub.body fun ν => (r ν).runBody sub bound :=
  .inLiveScope sub.scope <| (declareParameters sub.params bound).bind fun _ =>
    (h.initialResult sub.returns).bind fun _ => (Reports.declareVariable _ _).bind fun _ =>
      ((h.block (List.Subset.refl sub.body)).returning _).bind fun _ => bodyResult _ _ _

/-- An error that leaves a call has left, of the statements in which the call is, none. -/
theorem callSub (sub : Sub) (bound : List Value) (span : Span) :
    Reports parts fun ν => (r ν).callSubBy ν.enter sub bound span :=
  .asCall span ((h.callNative sub bound).ite (h.runBody sub bound))

theorem callPending (name : String) (args : List Pending) (span : Span) :
    Reports parts fun ν => (r ν).callPendingBy ν.enter name args span :=
  (h.resolveOverload name args).bind fun _ => h.callSub _ _ span

theorem callExpr (name : String) (receiver : Option Value) (args : List Argument) (span : Span) :
    Reports parts fun ν => (r ν).callExprBy ν.enter name receiver args span :=
  (h.arguments args).bind fun _ => h.callPending name _ span

end Calls

section Operators

/-! ## Operators -/

theorem swapExpr (left right : Expr) : Reports parts fun _ => Evaluator.swapExpr left right := by
  simp only [Evaluator.swapExpr]
  cases left.kind with
  | name a =>
    cases right.kind with
    | name b =>
      exact (Reports.cellOf a).bind fun _ => (Reports.cellOf b).bind fun _ =>
        of_local (.exchange _ _ a b)
    | _ => exact fail _
  | _ => exact fail _

variable (h : Reporting r)

include h

theorem unaryExpr (op : UnaryOp) (operand : Expr) :
    Reports parts fun ν => (r ν).unaryExpr op operand := by
  refine (h.eval none operand).bind fun v => ?_
  have happly : Reports parts fun _ => op.apply v := of_local (op.apply_local v)
  cases v with
  | data decl cells =>
    cases op.subName? with
    | some sub => exact (read _).bind fun _ => (h.invoke sub _).ite happly
    | none => exact happly
  | _ => exact happly

theorem assignExpr (left right : Expr) :
    Reports parts fun ν => (r ν).assignExpr left right := by
  simp only [Evaluator.assignExpr]
  cases left.kind with
  | name name =>
    exact (Reports.cellOf name).bind fun _ => (read _).bind fun _ => (h.eval _ right).bind fun v =>
      of_local (.assign _ name v)
  | _ => exact (fail _).atSpan _

theorem logicExpr (op : BinaryOp) (decisive : Bool) (left right : Expr) :
    Reports parts fun ν => (r ν).logicExpr op decisive left right := by
  refine (h.eval none left).bind fun v => ?_
  cases v with
  | bool a =>
    refine (pure _).ite ((h.eval none right).bind fun w => ?_)
    cases w with
    | bool b => exact pure _
    | _ => exact (failOn _ _).atSpan _
  | _ => exact (failOn _ _).atSpan _

theorem typeOperand (op : BinaryOp) (right : Expr) :
    Reports parts fun ν => (r ν).typeOperand op right := by
  simp only [Evaluator.typeOperand]
  cases right.kind with
  | type written => exact (h.resolveType written).atSpan _
  | _ =>
    exact (h.eval none right).bind fun w => ((Reports.typeOf w).bind fun _ => fail _).atSpan _

theorem isExpr (op : BinaryOp) (expected : Bool) (left right : Expr) :
    Reports parts fun ν => (r ν).isExpr op expected left right :=
  (h.eval none left).bind fun _ => (h.typeOperand op right).bind fun _ =>
    (read _).bind fun _ => pure _

theorem castExpr (left right : Expr) : Reports parts fun ν => (r ν).castExpr left right :=
  (h.eval none left).bind fun v => (h.typeOperand .as right).bind fun t =>
    of_local (.cast t v)

theorem dotExpr (left right : Expr) :
    Reports parts fun ν => (r ν).dotExprBy ν.enter left right := by
  refine (h.eval none left).bind fun target => ?_
  cases right.kind with
  | invoke name args => exact h.callExpr name (some target) args right.span
  | name member => exact of_local (getMember_local target member)
  | _ => exact (h.eval none right).bind fun w => (failOn _ w).atSpan _

theorem valueExpr (op : BinaryOp) (left right : Expr) :
    Reports parts fun ν => (r ν).valueExpr op left right := by
  refine (h.eval none left).bind fun v => (h.eval none right).bind fun w => ?_
  have happly : Reports parts fun _ => applyBinary op v w := of_local (applyBinary_local op v w)
  cases v with
  | data decl cells =>
    cases op.subName? with
    | some sub => exact h.invoke sub _
    | none => exact happly
  | _ => exact happly

end Operators

section Places

/-! ## Elements, members and entries -/

theorem enumEntry (enum entry : String) :
    Reports parts fun _ => Evaluator.enumEntry enum entry :=
  (read _).bind fun _ => (require _ _).bind fun _ => require _ _

variable (h : Reporting r)

include h

theorem setArrayElement (id : ArrayId) (index : Value) (value : Expr) :
    Reports parts fun ν => (r ν).setArrayElement id index value := by
  refine (of_local (.position index)).bind fun i => (read _).bind fun element =>
    (h.eval _ value).bind fun v => (Reports.conform _ v).bind fun w => (read _).bind fun size => ?_
  exact .ite ((of_local (.modifyStore _)).bind fun _ => pure w) (of_local (.atIndex index _))

theorem setFieldAt (decl : DataDecl) (cells : List CellId) (index : Value) (value : Expr) :
    Reports parts fun ν => (r ν).setFieldAt decl cells index value :=
  (of_local (.position index)).bind fun _ => (of_local (.atIndex index _)).bind fun cell =>
    (of_local (.atIndex index _)).bind fun field => (read _).bind fun _ =>
      (h.eval _ value).bind fun v => of_local (.assign cell field.name v)

theorem setCharacter (target : Expr) (text : String) (index : Value) (value : Expr) :
    Reports parts fun ν => (r ν).setCharacter target text index value := by
  simp only [Evaluator.setCharacter]
  cases target.kind with
  | name name =>
    refine (of_local (.position index)).bind fun i => (h.eval none value).bind fun v => ?_
    cases v with
    | char c =>
      refine .ite ((Reports.cellOf name).bind fun cell => ?_) (of_local (.atIndex index _))
      exact (of_local (.assign cell name _)).bind fun _ => pure _
    | _ => exact failOn _ _
  | _ => exact (fail _).atSpan _

theorem setIndexExpr (target index value : Expr) :
    Reports parts fun ν => (r ν).setIndexExpr target index value := by
  refine (h.eval none target).bind fun t => (h.eval none index).bind fun i => ?_
  cases t with
  | array id => exact h.setArrayElement id i value
  | data decl cells => exact h.setFieldAt decl cells i value
  | string s => exact h.setCharacter target s i value
  | _ => exact failOn _ _

theorem setMemberExpr (target : Expr) (member : String) (value : Expr) :
    Reports parts fun ν => (r ν).setMemberExpr target member value := by
  refine (h.eval none target).bind fun t => ?_
  cases t with
  | data decl cells =>
    exact (of_local (fieldCell_local decl cells member)).bind fun cell => (read _).bind fun _ =>
      (h.eval _ value).bind fun v => of_local (.assign cell member v)
  | entry enum name ordinal value => exact (fail _).ite (fail _)
  | _ => exact failOn _ _

/-- An error inside an expression leaves none of the statements around it. -/
theorem expr (hint : Option Ty) (e : Expr) :
    Reports parts fun ν => (r ν).exprBy ν.enter hint e := by
  refine .atSpan e.span ?_
  cases e.kind with
  | empty => exact pure _
  | literal l => exact pure _
  | name name => exact (Reports.cellOf name).bind fun _ => read _
  | type written => exact (h.resolveType written).bind fun t => h.default t
  | array elements => exact h.arrayLiteral _ elements
  | unary op operand => exact h.unaryExpr op operand
  | binary op left right =>
    cases op with
    | dot => exact h.dotExpr left right
    | assign => exact h.assignExpr left right
    | swap => exact swapExpr left right
    | and => exact h.logicExpr .and false left right
    | or => exact h.logicExpr .or true left right
    | is => exact h.isExpr .is true left right
    | isNot => exact h.isExpr .isNot false left right
    | as => exact h.castExpr left right
    | _ => exact h.valueExpr _ left right
  | getIndex target index =>
    exact (h.eval none target).bind fun t => (h.eval none index).bind fun i =>
      of_local (getIndex_local t i)
  | setIndex target index value => exact h.setIndexExpr target index value
  | getMember target member =>
    exact (h.eval none target).bind fun t => of_local (getMember_local t member)
  | setMember target member value => exact h.setMemberExpr target member value
  | invoke name args => exact h.callExpr name none args e.span
  | instantiate written elements =>
    cases written with
    | some written => exact (h.resolveType written).bind fun t => h.instantiate t elements
    | none =>
      cases hint with
      | some t => exact h.instantiate t elements
      | none => exact fail _
  | enumEntry enum entry => exact enumEntry enum entry

end Places

end Evaluator.Reporting

end BasicScript
