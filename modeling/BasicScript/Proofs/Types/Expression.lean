import BasicScript.Eval.Expr
import BasicScript.Proofs.Types.Call

/-! # Types of expressions

Every value that an expression gives is accounted for, and every store goes
through the type of its place.
-/

namespace BasicScript

namespace Evaluator.Sound

open Run.Sound (pure fail failOn readBind requireBind ite typed)

variable {r : Evaluator} {s : State}

theorem ordered_scalar {op : BinaryOp} {holds : Ordering → Bool} {v w result : Value}
    (h : op.ordered s.store holds v w = .ok result) : s.Holds result := by
  unfold BinaryOp.ordered at h
  split at h
  · cases h
    trivial
  · cases h

theorem arithmetic_scalar {op : BinaryOp} {arith : ArithOp} {v w result : Value}
    (h : op.arithmetic s.store arith v w = .ok result) : s.Holds result := by
  unfold BinaryOp.arithmetic at h
  split at h
  · split at h
    · cases h
      trivial
    · cases h
  · cases h
  · cases h

theorem logical_scalar {op : BinaryOp} {f : Bool → Bool → Bool} {v w result : Value}
    (h : op.logical s.store f v w = .ok result) : s.Holds result := by
  unfold BinaryOp.logical at h
  split at h
  · cases h
    trivial
  · cases h
  · cases h

/-- An operator on two values makes a scalar. -/
theorem apply_scalar {op : BinaryOp} {v w result : Value}
    (h : op.apply s.store v w = .ok result) : s.Holds result := by
  unfold BinaryOp.apply at h
  split at h
  case h_1 | h_2 | h_7 =>
    cases h
    trivial
  case h_3 | h_4 | h_5 | h_6 => exact ordered_scalar h
  case h_8 | h_9 | h_10 | h_11 | h_12 => exact arithmetic_scalar h
  case h_13 | h_14 => exact logical_scalar h
  all_goals cases h

theorem applyBinary (op : BinaryOp) (v w : Value) :
    (Evaluator.applyBinary op v w).Sound s .value := by
  refine .endingBind (readBind ?_)
  split
  · next result hresult => exact pure (apply_scalar hresult)
  · exact fail _

/-- The values of the fields of an instance are values for places of any type. -/
theorem fields_present {d : DataDecl} {cells : List CellId} (hs : s.Typed)
    (h : s.Holds (.data d cells)) :
    ∀ v ∈ cells.map s.store.read, s.Has (.prim .any) v := by
  intro v hv
  obtain ⟨id, hid, rfl⟩ := List.mem_map.mp hv
  obtain ⟨i, hi, rfl⟩ := List.getElem_of_mem hid
  have hfield := (List.forall₂_iff_get.mp h.2).2 i (h.2.length_eq ▸ hi) hi
  refine ⟨hs.store.cell_holds _, ?_⟩
  have hpresent := hfield.present
  revert hpresent
  cases s.store.read cells[i] <;> simp [Store.Fits, Primitive.admits, Value.isMissing]

theorem applyUnary (op : UnaryOp) {v : Value} (hv : s.Holds v) :
    (op.apply v).Sound s .value := by
  have hlength : ∀ n, (UnaryOp.lengthValue n).Sound s .value :=
    fun n => ite (fun _ => pure trivial) fun _ => fail _
  unfold UnaryOp.apply
  split
  · exact pure trivial
  · exact pure trivial
  · exact hlength _
  · exact readBind (hlength _)
  · exact .textBind fun _ => pure trivial
  · exact pure hv
  · exact typed fun hs => readBind (newArray_value (fields_present hs hv))
  · exact failOn _ _

theorem unaryExpr (h : r.Sound) (op : UnaryOp) (operand : Expr) :
    (r.unaryExpr op operand).Sound s .value := by
  refine (h.eval _ operand s).bind fun v t _ hv => ?_
  split
  · refine readBind (ite (fun _ => h.invoke _ _ t fun w hw => ?_) fun _ => applyUnary op hv)
    rwa [List.mem_singleton.mp hw]
  · exact applyUnary op hv

theorem assignExpr (h : r.Sound) (left right : Expr) :
    (r.assignExpr left right).Sound s .value := by
  unfold Evaluator.assignExpr
  split
  · exact .cellOfBind fun id _ => readBind ((h.eval _ right s).bind fun v t _ hv => .assign hv)
  · exact .atSpan _ (fail _)

theorem swapExpr (left right : Expr) : (Evaluator.swapExpr left right).Sound s .value := by
  unfold Evaluator.swapExpr
  split
  · exact .cellOfBind fun a _ => .cellOfBind fun b _ => .exchange a b _ _
  · exact fail _

theorem logicExpr (h : r.Sound) (op : BinaryOp) (decisive : Bool) (left right : Expr) :
    (r.logicExpr op decisive left right).Sound s .value := by
  refine (h.eval _ left s).bind fun v t _ _ => ?_
  split
  · refine ite (fun _ => pure trivial) fun _ => (h.eval _ right t).bind fun w u _ _ => ?_
    split
    · exact pure trivial
    · exact .atSpan _ (failOn _ _)
  · exact .atSpan _ (failOn _ _)

theorem typeOperand (h : r.Sound) (op : BinaryOp) (right : Expr) :
    (r.typeOperand op right).Sound s .nothing := by
  unfold Evaluator.typeOperand
  split
  · exact .atSpan _ (h.resolveType _)
  · exact (h.eval _ right s).bind fun _ _ _ _ => .atSpan _ (.typeOfBind fun _ => fail _)

theorem isExpr (h : r.Sound) (op : BinaryOp) (expected : Bool) (left right : Expr) :
    (r.isExpr op expected left right).Sound s .value :=
  (h.eval _ left s).bind fun _ _ _ _ => (h.typeOperand _ _).bind fun _ _ _ _ =>
    readBind (pure trivial)

theorem castExpr (h : r.Sound) (left right : Expr) :
    (r.castExpr left right).Sound s .value := by
  refine (h.eval _ left s).bind fun v u _ hv => (h.typeOperand _ _).bind fun t u' hg _ => ?_
  rcases Run.cast_cases t v u' with ⟨-, w, σ, hcast, hrun⟩ | ⟨-, -, hrun⟩ | ⟨-, hrun⟩
  · refine .done hrun fun hu => ?_
    have hadds := Ty.cast_adds hcast
    obtain ⟨hσ, hw⟩ := Ty.cast_has hcast hu.store (hv.grows hg)
    exact ⟨hu.withAdded hσ hadds, ⟨hadds.grows, .refl Scope.Extends.refl _⟩, hw.holds⟩
  · exact .failed hrun
  · exact .failed hrun

theorem fieldCellBind {decl : DataDecl} {cells : List CellId} {member : String}
    {f : CellId → Run Value} (h : ∀ id, (f id).Sound s .value) :
    (Evaluator.fieldCell decl cells member >>= f).Sound s .value :=
  requireBind fun id _ => h id

theorem getMember {target : Value} (member : String) (ht : s.Holds target) :
    (Evaluator.getMember target member).Sound s .value := by
  unfold Evaluator.getMember
  split
  · exact typed fun hs => fieldCellBind fun id => .read (hs.store.cell_holds id)
  · split
    · exact pure trivial
    · exact pure trivial
    · exact pure ht
    · exact fail _
  · exact failOn _ _

theorem dotExpr (h : r.Sound) (hl : r.library.Sound) (left right : Expr) :
    (r.dotExpr left right).Sound s .value := by
  refine (h.eval _ left s).bind fun target t _ ht => ?_
  split
  · exact h.callExpr hl _ (fun v hv => Option.some.inj hv ▸ ht) _ _
  · exact getMember _ ht
  · exact (h.eval _ right t).bind fun _ _ _ _ => .atSpan _ (failOn _ _)

theorem valueExpr (h : r.Sound) (op : BinaryOp) (left right : Expr) :
    (r.valueExpr op left right).Sound s .value := by
  refine (h.eval _ left s).bind fun v t _ hv => (h.eval _ right t).bind fun w u hg hw => ?_
  split
  · refine h.invoke _ _ u (List.forall_mem_cons.mpr ⟨hv.grows hg, fun x hx => ?_⟩)
    rwa [List.mem_singleton.mp hx]
  · exact applyBinary _ _ _

theorem binaryExpr (h : r.Sound) (hl : r.library.Sound) (op : BinaryOp) (left right : Expr) :
    (r.binaryExpr op left right).Sound s .value := by
  unfold Evaluator.binaryExpr
  split
  · exact h.assignExpr _ _
  · exact swapExpr _ _
  · exact h.logicExpr _ _ _ _
  · exact h.logicExpr _ _ _ _
  · exact h.isExpr _ _ _ _
  · exact h.isExpr _ _ _ _
  · exact h.castExpr _ _
  · exact h.dotExpr hl _ _
  · exact h.valueExpr _ _ _

theorem getIndex {target : Value} (index : Value) :
    (Evaluator.getIndex target index).Sound s .value := by
  unfold Evaluator.getIndex
  split
  · refine .positionBind fun i => .atIndex fun v hv => ?_
    obtain ⟨c, -, rfl⟩ := Option.map_eq_some_iff.mp hv
    trivial
  · next id =>
    refine typed fun hs => .positionBind fun i => readBind (.atIndex fun v hv => ?_)
    have hmem : v ∈ s.store.elements id := Array.mem_toList_iff.mpr (Array.mem_of_getElem? hv)
    exact (hs.store.elements_have id v hmem).holds
  · refine typed fun hs => .positionBind fun i => readBind (.atIndex fun v hv => ?_)
    obtain ⟨id, -, rfl⟩ := Option.map_eq_some_iff.mp hv
    exact hs.store.cell_holds id
  · exact failOn _ _

/-- A value for the elements of an array can be stored there. -/
theorem setElement {id : ArrayId} (i : Nat) {w : Value}
    (hw : s.Has (s.store.block id).element w) :
    (Run.modifyStore (·.setElement id i w)).Sound s fun _ t => t.Holds w := by
  refine .done rfl fun hs => ?_
  have hg := Store.Grows.setElement s.store id i w
  have hgrows : s.Grows { s with store := s.store.setElement id i w } :=
    ⟨hg, .refl Scope.Extends.refl _⟩
  exact ⟨hs.withStore (hs.store.setElement i hw) hg fun _ c hc hv => ⟨c, hc, hv⟩, hgrows,
    hw.holds.grows hgrows⟩

theorem setArrayElement (h : r.Sound) {id : ArrayId} (hid : s.Holds (.array id)) (index : Value)
    (value : Expr) : (r.setArrayElement id index value).Sound s .value := by
  refine .positionBind fun i => readBind ((h.eval _ value s).bind fun v t hg hv => ?_)
  refine (Run.Sound.conform hv).bind fun w u hg' hw => readBind (ite (fun _ => ?_) fun _ => ?_)
  · have helement : (u.store.block id).element = (s.store.block id).element :=
      ((hg.trans hg').store.block hid).element
    refine (setElement i ?_).bind fun _ _ _ hw => pure hw
    rw [helement]
    exact hw
  · exact .atIndex fun _ h => nomatch h

theorem setFieldAt (h : r.Sound) (decl : DataDecl) (cells : List CellId) (index : Value)
    (value : Expr) : (r.setFieldAt decl cells index value).Sound s .value :=
  .positionBind fun _ => .atIndexBind fun _ _ => .atIndexBind fun _ _ =>
    readBind ((h.eval _ value s).bind fun _ _ _ hv => .assign hv)

theorem setCharacter (h : r.Sound) (target : Expr) (text : String) (index : Value)
    (value : Expr) : (r.setCharacter target text index value).Sound s .value := by
  unfold Evaluator.setCharacter
  split
  · refine .positionBind fun i => (h.eval _ value s).bind fun v t _ _ => ?_
    split
    · refine ite (fun _ => .cellOfBind fun id _ => ?_) fun _ => .atIndex fun _ h => nomatch h
      exact Run.Sound.bind (.assign trivial) fun _ _ _ _ => pure trivial
    · exact failOn _ _
  · exact .atSpan _ (fail _)

theorem setIndexExpr (h : r.Sound) (target index value : Expr) :
    (r.setIndexExpr target index value).Sound s .value := by
  refine (h.eval _ target s).bind fun t u _ ht => (h.eval _ index u).bind fun i u' hg _ => ?_
  split
  · exact h.setArrayElement (ht.grows hg) _ _
  · exact h.setFieldAt _ _ _ _
  · exact h.setCharacter _ _ _ _
  · exact failOn _ _

theorem setMemberExpr (h : r.Sound) (target : Expr) (member : String) (value : Expr) :
    (r.setMemberExpr target member value).Sound s .value := by
  refine (h.eval _ target s).bind fun t u _ _ => ?_
  split
  · exact fieldCellBind fun id =>
      readBind ((h.eval _ value u).bind fun v u' _ hv => .assign hv)
  · exact ite (fun _ => fail _) fun _ => fail _
  · exact failOn _ _

theorem enumEntry (enum entry : String) : (Evaluator.enumEntry enum entry).Sound s .value := by
  refine typed fun hs => readBind (requireBind fun decl hdecl => .require fun v hv => ?_)
  exact (hs.entry_has hdecl (List.mem_of_find?_eq_some hv)).holds

theorem exprKind (h : r.Sound) (hl : r.library.Sound) (hint : Option Ty) (span : Span)
    (kind : ExprKind) : (r.exprKind hint span kind).Sound s .value := by
  unfold Evaluator.exprKind
  split
  · exact pure trivial
  · next l => exact pure (by cases l <;> trivial)
  · exact typed fun hs => .cellOfBind fun id _ => .read (hs.store.cell_holds id)
  · exact (h.resolveType _).bind fun t u _ _ => (h.default t u).weaken fun _ _ _ hv => hv.holds
  · exact h.arrayLiteral _ _
  · exact h.unaryExpr _ _
  · exact h.binaryExpr hl _ _ _
  · exact (h.eval _ _ s).bind fun _ t _ _ => (h.eval _ _ t).bind fun _ _ _ _ => getIndex _
  · exact h.setIndexExpr _ _ _
  · exact (h.eval _ _ s).bind fun _ _ _ hv => getMember _ hv
  · exact h.setMemberExpr _ _ _
  · exact h.callExpr hl _ (fun _ hv => by cases hv) _ _
  · exact (h.resolveType _).bind fun t _ _ _ => h.instantiate t _
  · split
    · exact h.instantiate _ _
    · exact fail _
  · exact enumEntry _ _

theorem expr (h : r.Sound) (hl : r.library.Sound) (hint : Option Ty) (e : Expr) :
    (r.expr hint e).Sound s .value := .atSpan _ (h.exprKind hl hint e.span e.kind)

end Evaluator.Sound

end BasicScript
