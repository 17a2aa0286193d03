import BasicScript.Eval.Expr
import BasicScript.Proofs.Recast.Call

/-! # Recast expressions

An expression has the recast value in a recast state. Its span goes to the
calls it makes and to the errors that carry none yet, and nowhere else.
-/

namespace BasicScript

namespace Recast.Follows

open Recast.Carries (fail pure read reads require ite guarded failOn)

variable {R : Recast} {r r' : Evaluator}

/-- A reading of the storage that gives a type. -/
theorem cellType (cell : CellId) : R.Maps id (Run.read fun s => (s.store.cell cell).type)
    (Run.read fun s => (s.store.cell cell).type) := by
  refine reads fun s => ?_
  show ((s.store.mapSpans R.span).cell cell).type = _
  rw [s.store.cell_mapSpans]
  rfl

theorem applyBinary (op : BinaryOp) (v w : Value) :
    R.Maps (Value.mapSpans R.span) (Evaluator.applyBinary op v w)
      (Evaluator.applyBinary op (v.mapSpans R.span) (w.mapSpans R.span)) := by
  have happly : R.Maps (Except.map (Value.mapSpans R.span))
      (Run.read fun s => op.apply s.store v w)
      (Run.read fun s => op.apply s.store (v.mapSpans R.span) (w.mapSpans R.span)) :=
    reads fun s => op.apply_mapSpans s.store v w
  refine (Carries.ending fun σ => op.ends_mapSpans σ v w).bind fun _ _ =>
    happly.bind fun result _ => ?_
  cases result with
  | ok value => exact pure rfl trivial
  | error fault => exact fail fault

theorem lengthValue (n : Nat) :
    R.Maps (Value.mapSpans R.span) (UnaryOp.lengthValue n) (UnaryOp.lengthValue n) :=
  ite Iff.rfl (fun _ => pure rfl trivial) fun _ => fail _

theorem applyUnary (op : UnaryOp) (v : Value) :
    R.Maps (Value.mapSpans R.span) (op.apply v) (op.apply (v.mapSpans R.span)) := by
  have hfault : R.Maps (Value.mapSpans R.span) (op.operandFault v)
      (op.operandFault (v.mapSpans R.span)) := failOn _ v
  cases op with
  | negate =>
    cases v with
    | number n => exact pure rfl trivial
    | _ => exact hfault
  | not =>
    cases v with
    | bool b => exact pure rfl trivial
    | _ => exact hfault
  | length =>
    cases v with
    | string s => exact lengthValue s.length
    | array id =>
      exact (Carries.arraySize id).bind fun n _ => lengthValue n
    | _ => exact hfault
  | stringify =>
    have htext : R.Maps (Value.mapSpans R.span) (do return .string (← Run.text v))
        (do return .string (← Run.text (v.mapSpans R.span))) :=
      (Carries.text v).bind fun _ _ => pure rfl trivial
    cases v <;> exact htext
  | unwrap =>
    cases v with
    | entry enum name ordinal w => exact pure rfl trivial
    | data decl cells =>
      have hread : R.Maps (List.map (Value.mapSpans R.span))
          (Run.read fun s => cells.map s.store.read)
          (Run.read fun s => cells.map s.store.read) := by
        refine reads fun s => ?_
        rw [List.map_map]
        exact List.map_congr_left fun cell _ => s.store.read_mapSpans cell
      exact hread.bind fun vs _ => Carries.newArray _ vs
    | _ => exact hfault

theorem unaryExpr (h : R.Follows r r') (op : UnaryOp) (operand : Expr) :
    R.Maps (Value.mapSpans R.span) (r.unaryExpr op operand)
      (r'.unaryExpr op (operand.mapSpans R.span)) := by
  refine (h.eval none operand).bind fun v _ => ?_
  cases v with
  | data decl cells =>
    cases op.subName? with
    | none => exact applyUnary op _
    | some sub =>
      have hsub : R.Maps id (Run.read fun s => s.env.hasSub sub)
          (Run.read fun s => s.env.hasSub sub) := reads fun s => s.env.hasSub_mapSpans sub
      refine hsub.bind fun found _ => ?_
      exact ite Iff.rfl (fun _ => h.invoke sub [.data decl cells]) fun _ => applyUnary op _
  | _ => exact applyUnary op _

theorem assignExpr (h : R.Follows r r') (left right : Expr) :
    R.Maps (Value.mapSpans R.span) (r.assignExpr left right)
      (r'.assignExpr (left.mapSpans R.span) (right.mapSpans R.span)) := by
  unfold Evaluator.assignExpr
  rw [Expr.kind_mapSpans, Expr.span_mapSpans]
  cases left.kind with
  | name name =>
    refine (Carries.cellOf name).bind fun cell _ => (cellType cell).bind fun t _ => ?_
    exact (h.eval t.hint? right).bind fun v _ => Carries.assign cell name v
  | _ => exact (fail _).atSpan left.span

theorem swapExpr (left right : Expr) :
    R.Maps (Value.mapSpans R.span) (Evaluator.swapExpr left right)
      (Evaluator.swapExpr (left.mapSpans R.span) (right.mapSpans R.span)) := by
  unfold Evaluator.swapExpr
  rw [Expr.kind_mapSpans, Expr.kind_mapSpans]
  cases left.kind with
  | name a =>
    cases right.kind with
    | name b =>
      exact (Carries.cellOf a).bind fun cellA _ => (Carries.cellOf b).bind fun cellB _ =>
        Carries.exchange cellA cellB a b
    | _ => exact fail _
  | _ => exact fail _

theorem logicExpr (h : R.Follows r r') (op : BinaryOp) (decisive : Bool) (left right : Expr) :
    R.Maps (Value.mapSpans R.span) (r.logicExpr op decisive left right)
      (r'.logicExpr op decisive (left.mapSpans R.span) (right.mapSpans R.span)) := by
  unfold Evaluator.logicExpr
  rw [Expr.span_mapSpans, Expr.span_mapSpans]
  refine (h.eval none left).bind fun v _ => ?_
  cases v with
  | bool a =>
    refine ite Iff.rfl (fun _ => pure rfl trivial) fun _ => ?_
    refine (h.eval none right).bind fun w _ => ?_
    cases w with
    | bool b => exact pure rfl trivial
    | _ => exact (failOn _ _).atSpan right.span
  | _ => exact (failOn _ _).atSpan left.span

theorem typeOperand (h : R.Follows r r') (op : BinaryOp) (right : Expr) :
    R.Maps id (r.typeOperand op right) (r'.typeOperand op (right.mapSpans R.span)) := by
  have hvalue : R.Maps (α := Ty) id
      (do
        let w ← r.eval none right
        Run.atSpan right.span (do Run.fail (.invalidRight op.symbol (← Run.typeOf w))))
      (do
        let w ← r'.eval none (right.mapSpans R.span)
        Run.atSpan (R.span right.span)
          (do Run.fail (.invalidRight op.symbol (← Run.typeOf w)))) :=
    (h.eval none right).bind fun w _ =>
      ((Carries.typeOf w).bind fun _ _ => fail _).atSpan right.span
  unfold Evaluator.typeOperand
  rw [Expr.kind_mapSpans, Expr.span_mapSpans]
  cases right.kind with
  | type written => exact (h.resolveType written).atSpan right.span
  | _ => exact hvalue

theorem isExpr (h : R.Follows r r') (op : BinaryOp) (expected : Bool) (left right : Expr) :
    R.Maps (Value.mapSpans R.span) (r.isExpr op expected left right)
      (r'.isExpr op expected (left.mapSpans R.span) (right.mapSpans R.span)) := by
  refine (h.eval none left).bind fun v _ => (h.typeOperand op right).bind fun t _ => ?_
  have hadmits : R.Maps id (Run.read fun s => t.admits s.store v)
      (Run.read fun s => t.admits s.store (v.mapSpans R.span)) :=
    reads fun s => t.admits_mapSpans s.store v
  exact hadmits.bind fun _ _ => pure rfl trivial

theorem castExpr (h : R.Follows r r') (left right : Expr) :
    R.Maps (Value.mapSpans R.span) (r.castExpr left right)
      (r'.castExpr (left.mapSpans R.span) (right.mapSpans R.span)) :=
  (h.eval none left).bind fun v _ => (h.typeOperand .as right).bind fun t _ => Carries.cast t v

theorem fieldCell (decl : DataDecl) (cells : List CellId) (member : String) :
    R.Maps id (Evaluator.fieldCell decl cells member)
      (Evaluator.fieldCell (decl.mapSpans R.span) cells member) := by
  unfold Evaluator.fieldCell
  rw [DataDecl.fieldIndex?_mapSpans]
  exact require _ (congrFun Option.map_id _).symm fun _ _ => trivial

theorem getMember (target : Value) (member : String) :
    R.Maps (Value.mapSpans R.span) (Evaluator.getMember target member)
      (Evaluator.getMember (target.mapSpans R.span) member) := by
  cases target with
  | data decl cells =>
    exact (fieldCell decl cells member).bind fun cell _ =>
      reads fun s => s.store.read_mapSpans cell
  | entry enum name ordinal value =>
    simp only [Value.mapSpans, Evaluator.getMember]
    split
    · exact pure rfl trivial
    · exact pure rfl trivial
    · exact pure rfl trivial
    · exact fail _
  | _ => exact failOn _ _

theorem dotExpr (h : R.Follows r r') (hl : r.library.Recasts R) (left right : Expr) :
    R.Maps (Value.mapSpans R.span) (r.dotExpr left right)
      (r'.dotExpr (left.mapSpans R.span) (right.mapSpans R.span)) := by
  have hother : R.Maps (α := Value) (Value.mapSpans R.span)
      (do
        let w ← r.eval none right
        Run.atSpan right.span (Run.failOn (.invalidRight BinaryOp.dot.symbol) w))
      (do
        let w ← r'.eval none (right.mapSpans R.span)
        Run.atSpan (R.span right.span) (Run.failOn (.invalidRight BinaryOp.dot.symbol) w)) :=
    (h.eval none right).bind fun w _ => (failOn _ w).atSpan right.span
  unfold Evaluator.dotExpr
  rw [Expr.kind_mapSpans, Expr.span_mapSpans]
  refine (h.eval none left).bind fun target _ => ?_
  cases right.kind with
  | invoke name args =>
    rw [ExprKind.mapSpans, Argument.mapSpansAll_eq_map]
    exact h.callExpr hl name (some target) args right.span
  | name member => exact getMember target member
  | _ => exact hother

theorem valueExpr (h : R.Follows r r') (op : BinaryOp) (left right : Expr) :
    R.Maps (Value.mapSpans R.span) (r.valueExpr op left right)
      (r'.valueExpr op (left.mapSpans R.span) (right.mapSpans R.span)) := by
  refine (h.eval none left).bind fun v _ => (h.eval none right).bind fun w _ => ?_
  cases v with
  | data decl cells =>
    cases op.subName? with
    | none => exact applyBinary op _ w
    | some sub => exact h.invoke sub [.data decl cells, w]
  | _ => exact applyBinary op _ w

theorem binaryExpr (h : R.Follows r r') (hl : r.library.Recasts R) (op : BinaryOp)
    (left right : Expr) :
    R.Maps (Value.mapSpans R.span) (r.binaryExpr op left right)
      (r'.binaryExpr op (left.mapSpans R.span) (right.mapSpans R.span)) := by
  cases op with
  | assign => exact h.assignExpr left right
  | swap => exact swapExpr left right
  | and => exact h.logicExpr .and false left right
  | or => exact h.logicExpr .or true left right
  | is => exact h.isExpr .is true left right
  | isNot => exact h.isExpr .isNot false left right
  | as => exact h.castExpr left right
  | dot => exact h.dotExpr hl left right
  | _ => exact h.valueExpr _ left right

theorem getIndex (target index : Value) :
    R.Maps (Value.mapSpans R.span) (Evaluator.getIndex target index)
      (Evaluator.getIndex (target.mapSpans R.span) (index.mapSpans R.span)) := by
  cases target with
  | string s =>
    refine (Carries.position index).bind fun i _ => Carries.atIndex index ?_ fun _ _ => trivial
    rw [Option.map_map]
    rfl
  | array id =>
    refine (Carries.position index).bind fun i _ => ?_
    have hread : R.Maps (Option.map (Value.mapSpans R.span))
        (Run.read fun s => (s.store.block id).values[i]?)
        (Run.read fun s => (s.store.block id).values[i]?) := by
      refine reads fun s => ?_
      show ((s.store.mapSpans R.span).block id).values[i]? = _
      rw [s.store.block_mapSpans, ArrayBlock.mapSpans, Array.getElem?_map]
    exact hread.bind fun found _ => Carries.atIndex index rfl fun _ _ => trivial
  | data decl cells =>
    refine (Carries.position index).bind fun i _ => ?_
    have hread : R.Maps (Option.map (Value.mapSpans R.span))
        (Run.read fun s => cells[i]?.map s.store.read)
        (Run.read fun s => cells[i]?.map s.store.read) := by
      refine reads fun s => ?_
      rw [Option.map_map]
      exact congrArg (Option.map · cells[i]?) (funext fun cell => s.store.read_mapSpans cell)
    exact hread.bind fun found _ => Carries.atIndex index rfl fun _ _ => trivial
  | _ => exact failOn _ _

theorem setArrayElement (h : R.Follows r r') (id : ArrayId) (index : Value) (value : Expr) :
    R.Maps (Value.mapSpans R.span) (r.setArrayElement id index value)
      (r'.setArrayElement id (index.mapSpans R.span) (value.mapSpans R.span)) := by
  refine (Carries.position index).bind fun i _ => (Carries.arrayElement id).bind fun t _ => ?_
  refine (h.eval t.hint? value).bind fun v _ => (Carries.conform t v).bind fun w _ => ?_
  refine (Carries.arraySize id).bind fun size _ => ite Iff.rfl (fun _ => ?_) fun _ => ?_
  · exact (Carries.modifyStore fun σ => σ.setElement_mapSpans id i w).bind fun _ _ =>
      pure rfl trivial
  · exact Carries.atIndex index rfl fun _ _ => trivial

theorem setFieldAt (h : R.Follows r r') (decl : DataDecl) (cells : List CellId) (index : Value)
    (value : Expr) :
    R.Maps (Value.mapSpans R.span) (r.setFieldAt decl cells index value)
      (r'.setFieldAt (decl.mapSpans R.span) cells (index.mapSpans R.span)
        (value.mapSpans R.span)) := by
  refine (Carries.position index).bind fun i _ => ?_
  have hcell : R.Maps id (Run.atIndex index cells[i]?)
      (Run.atIndex (index.mapSpans R.span) cells[i]?) :=
    Carries.atIndex index (congrFun Option.map_id _).symm fun _ _ => trivial
  have hfield : R.Maps (Field.mapSpans R.span) (Run.atIndex index decl.fields[i]?)
      (Run.atIndex (index.mapSpans R.span) (decl.mapSpans R.span).fields[i]?) :=
    Carries.atIndex index List.getElem?_map fun _ _ => trivial
  refine hcell.bind fun cell _ => hfield.bind fun field _ => (cellType cell).bind fun t _ => ?_
  exact (h.eval t.hint? value).bind fun v _ => Carries.assign cell field.name v

theorem setCharacter (h : R.Follows r r') (target : Expr) (text : String) (index : Value)
    (value : Expr) :
    R.Maps (Value.mapSpans R.span) (r.setCharacter target text index value)
      (r'.setCharacter (target.mapSpans R.span) text (index.mapSpans R.span)
        (value.mapSpans R.span)) := by
  unfold Evaluator.setCharacter
  rw [Expr.kind_mapSpans, Expr.span_mapSpans]
  cases target.kind with
  | name name =>
    refine (Carries.position index).bind fun i _ => (h.eval none value).bind fun v _ => ?_
    cases v with
    | char c =>
      refine ite Iff.rfl (fun _ => ?_) fun _ => Carries.atIndex index rfl fun _ _ => trivial
      exact (Carries.cellOf name).bind fun cell _ =>
        (Carries.assign cell name (.string _)).bind fun _ _ => pure rfl trivial
    | _ => exact failOn _ _
  | _ => exact (fail _).atSpan target.span

theorem setIndexExpr (h : R.Follows r r') (target index value : Expr) :
    R.Maps (Value.mapSpans R.span) (r.setIndexExpr target index value)
      (r'.setIndexExpr (target.mapSpans R.span) (index.mapSpans R.span)
        (value.mapSpans R.span)) := by
  refine (h.eval none target).bind fun t _ => (h.eval none index).bind fun i _ => ?_
  cases t with
  | array id => exact h.setArrayElement id i value
  | data decl cells => exact h.setFieldAt decl cells i value
  | string s => exact h.setCharacter target s i value
  | _ => exact failOn _ _

theorem setMemberExpr (h : R.Follows r r') (target : Expr) (member : String) (value : Expr) :
    R.Maps (Value.mapSpans R.span) (r.setMemberExpr target member value)
      (r'.setMemberExpr (target.mapSpans R.span) member (value.mapSpans R.span)) := by
  refine (h.eval none target).bind fun t _ => ?_
  cases t with
  | data decl cells =>
    refine (fieldCell decl cells member).bind fun cell _ => (cellType cell).bind fun t _ => ?_
    exact (h.eval t.hint? value).bind fun v _ => Carries.assign cell member v
  | entry enum name ordinal v => exact ite Iff.rfl (fun _ => fail _) fun _ => fail _
  | _ => exact failOn _ _

theorem enumEntry (enum entry : String) :
    R.Maps (Value.mapSpans R.span) (Evaluator.enumEntry enum entry)
      (Evaluator.enumEntry enum entry) := by
  refine (reads fun s => s.env.enum?_mapSpans enum).bind fun found _ => ?_
  refine (require (Q := fun _ => True) _ rfl fun _ _ => trivial).bind fun decl _ => ?_
  exact require _ (decl.find?_mapSpans entry) fun _ _ => trivial

theorem exprKind (h : R.Follows r r') (hl : r.library.Recasts R) (hint : Option Ty) (span : Span)
    (kind : ExprKind) :
    R.Maps (Value.mapSpans R.span) (r.exprKind hint span kind)
      (r'.exprKind hint (R.span span) (kind.mapSpans R.span)) := by
  cases kind with
  | empty => exact pure rfl trivial
  | literal l => exact pure (Value.ofLiteral_mapSpans l).symm trivial
  | name name =>
    exact (Carries.cellOf name).bind fun cell _ => reads fun s => s.store.read_mapSpans cell
  | type written => exact (h.resolveType written).bind fun t _ => h.default t
  | array elements =>
    rw [ExprKind.mapSpans, Expr.mapSpansAll_eq_map]
    exact h.arrayLiteral _ elements
  | unary op operand => exact h.unaryExpr op operand
  | binary op left right => exact h.binaryExpr hl op left right
  | getIndex target index =>
    exact (h.eval none target).bind fun t _ => (h.eval none index).bind fun i _ => getIndex t i
  | setIndex target index value => exact h.setIndexExpr target index value
  | getMember target member => exact (h.eval none target).bind fun t _ => getMember t member
  | setMember target member value => exact h.setMemberExpr target member value
  | invoke name args =>
    rw [ExprKind.mapSpans, Argument.mapSpansAll_eq_map]
    exact h.callExpr hl name none args span
  | instantiate target elements =>
    rw [ExprKind.mapSpans, Expr.mapSpansAll_eq_map]
    cases target with
    | some written => exact (h.resolveType written).bind fun t _ => h.instantiate t elements
    | none =>
      cases hint with
      | some t => exact h.instantiate t elements
      | none => exact fail _
  | enumEntry enum entry => exact enumEntry enum entry

theorem expr (h : R.Follows r r') (hl : r.library.Recasts R) (hint : Option Ty) (e : Expr) :
    R.Maps (Value.mapSpans R.span) (r.expr hint e) (r'.expr hint (e.mapSpans R.span)) := by
  unfold Evaluator.expr
  rw [Expr.kind_mapSpans, Expr.span_mapSpans]
  exact (h.exprKind hl hint e.span e.kind).atSpan e.span

end Recast.Follows

end BasicScript
