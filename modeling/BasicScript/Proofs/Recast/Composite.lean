import BasicScript.Eval.Stmt
import BasicScript.Proofs.Recast.Run

/-! # Recast composites

Evaluators of which the second does what the first one does, recast, give
rules with the same relation. Where a rule goes below the path of a data
declaration that it has looked up, that path leads outwards.
-/

namespace BasicScript

/-- The second evaluator does, from recast states, what the first one does. -/
structure Recast.Follows (R : Recast) (r r' : Evaluator) : Prop where
  library : r'.library = r.library
  rounds : r'.rounds = r.rounds
  eval : ∀ hint e,
    R.Maps (Value.mapSpans R.span) (r.eval hint e) (r'.eval hint (e.mapSpans R.span))
  exec : ∀ s, R.Maps (Flow.mapSpans R.span) (r.exec s) (r'.exec (s.mapSpans R.span))
  default : ∀ t, R.Maps (Value.mapSpans R.span) (r.default t) (r'.default t)
  invoke : ∀ name vs, R.Maps (Value.mapSpans R.span) (r.invoke name vs)
    (r'.invoke name (vs.map (Value.mapSpans R.span)))

namespace Recast.Follows

open Recast.Carries (fail pure read reads require ite guarded failOn)

variable {R : Recast} {r r' : Evaluator}

theorem block (h : R.Follows r r') (body : List Stmt) :
    R.Maps (Flow.mapSpans R.span) (r.block body)
      (r'.block (body.map (Stmt.mapSpans R.span))) := by
  induction body with
  | nil => exact pure rfl trivial
  | cons stmt rest ih =>
    refine (h.exec stmt).bind fun flow _ => ?_
    cases flow with
    | normal => exact ih
    | signal s => exact pure rfl trivial

theorem scopedBlock (h : R.Follows r r') (body : List Stmt) :
    R.Maps (Flow.mapSpans R.span) (r.scopedBlock body)
      (r'.scopedBlock (body.map (Stmt.mapSpans R.span))) :=
  (h.block body).inScope

theorem arraySize (h : R.Follows r r') (size : Expr) :
    R.Maps id (r.arraySize size) (r'.arraySize (size.mapSpans R.span)) := by
  refine (h.eval none size).bind fun v _ => ?_
  rw [v.integral?_mapSpans]
  cases v.integral? with
  | none => exact failOn _ v
  | some n => exact pure rfl trivial

theorem resolveType (h : R.Follows r r') (written : TypeExpr) :
    R.Maps id (r.resolveType written) (r'.resolveType (written.mapSpans R.span)) := by
  fun_induction Evaluator.resolveType r written with
  | case1 => exact pure rfl trivial
  | case2 p => exact pure rfl trivial
  | case3 element ih => exact ih.bind fun _ _ => pure rfl trivial
  | case4 element size ih =>
    exact ih.bind fun _ _ => (h.arraySize size).bind fun _ _ => pure rfl trivial
  | case5 element ih => exact ih.bind fun _ _ => pure rfl trivial
  | case6 name =>
    refine (reads (g := id) fun s => s.env.namedType?_mapSpans name).bind fun found _ => ?_
    exact require _ (congrFun Option.map_id found).symm fun _ _ => trivial

theorem suppliedValue (h : R.Follows r r') (t : Ty) (element : Option Expr) :
    R.Maps (Value.mapSpans R.span) (r.suppliedValue t element)
      (r'.suppliedValue t (element.map (Expr.mapSpans R.span))) := by
  cases element with
  | none => exact pure rfl trivial
  | some e => exact h.eval _ e

theorem fieldValue (h : R.Follows r r') {scope : ScopePath} (hscope : ScopePath.Outward scope)
    (field : Field) (element : Option Expr) :
    R.Maps (Value.mapSpans R.span) (r.fieldValue scope field element)
      (r'.fieldValue scope (field.mapSpans R.span) (element.map (Expr.mapSpans R.span))) := by
  refine (h.suppliedValue field.type element).bind fun supplied _ => ?_
  refine ite (by rw [supplied.isMissing_mapSpans]) (fun _ => ?_) fun _ => pure rfl trivial
  simp only [Field.mapSpans]
  cases field.default with
  | none => exact h.default field.type
  | some e => exact (h.eval _ e).inLiveScope hscope

theorem fieldCells (h : R.Follows r r') {scope : ScopePath} (hscope : ScopePath.Outward scope)
    (fields : List Field) (elements : List Expr) :
    R.Maps id (r.fieldCells scope fields elements)
      (r'.fieldCells scope (fields.map (Field.mapSpans R.span))
        (elements.map (Expr.mapSpans R.span))) := by
  induction fields generalizing elements with
  | nil => exact pure rfl trivial
  | cons field fields ih =>
    have hvalue := h.fieldValue hscope field elements.head?
    have hrest := ih elements.tail
    rw [← List.head?_map] at hvalue
    rw [List.map_tail] at hrest
    exact hvalue.bind fun v _ => (Carries.conform field.type v).bind fun w _ =>
      (Carries.newCell ⟨field.type, w, field.constant⟩).bind fun _ _ =>
        hrest.bind fun _ _ => pure rfl trivial

theorem instantiateData (h : R.Follows r r') (name : String) (elements : List Expr) :
    R.Maps (Value.mapSpans R.span) (r.instantiateData name elements)
      (r'.instantiateData name (elements.map (Expr.mapSpans R.span))) := by
  have hfound := read (R := R) (p := fun s => s.env.data? name) (q := fun s => s.env.data? name)
    (g := Option.map (DataDecl.mapSpans R.span))
    (Q := fun found => ∀ d ∈ found, ScopePath.Outward d.scope)
    fun s hs => ⟨s.env.data?_mapSpans name, fun d hd => hs.data? hd⟩
  refine hfound.bind fun found houtward => ?_
  refine (require _ rfl houtward).bind fun decl hdecl => ?_
  have hcells : R.Maps (Value.mapSpans R.span)
      (do return .data decl (← r.fieldCells decl.scope decl.fields elements))
      (do return .data (decl.mapSpans R.span) (← r'.fieldCells decl.scope
        (decl.fields.map (Field.mapSpans R.span)) (elements.map (Expr.mapSpans R.span)))) :=
    (h.fieldCells hdecl decl.fields elements).bind fun cells _ => pure rfl trivial
  simp only [DataDecl.mapSpans, List.length_map]
  exact guarded Iff.rfl hcells

theorem instantiateArray (h : R.Follows r r') (element : Ty) (size : Option Nat)
    (elements : List Expr) :
    R.Maps (Value.mapSpans R.span) (r.instantiateArray element size elements)
      (r'.instantiateArray element size (elements.map (Expr.mapSpans R.span))) := by
  have hgiven : R.Maps (List.map (Value.mapSpans R.span))
      (elements.mapM fun e => do Run.conform element (← r.eval element.hint? e))
      ((elements.map (Expr.mapSpans R.span)).mapM fun e => do
        Run.conform element (← r'.eval element.hint? e)) :=
    Carries.mapM (fun e => (h.eval element.hint? e).bind fun v _ => Carries.conform element v)
      elements
  have hfiller : ∀ n : Nat, R.Maps (List.map (Value.mapSpans R.span))
      ((List.replicate n element).mapM r.default) ((List.replicate n element).mapM r'.default) := by
    intro n
    have hmap := Carries.mapM (k := id) h.default (List.replicate n element)
    rwa [List.map_id] at hmap
  have hbuild : ∀ n : Nat, R.Maps (Value.mapSpans R.span)
      (do
        let given ← elements.mapM fun e => do Run.conform element (← r.eval element.hint? e)
        let filler ← (List.replicate n element).mapM r.default
        Run.newArray element (given ++ filler))
      (do
        let given ← (elements.map (Expr.mapSpans R.span)).mapM fun e => do
          Run.conform element (← r'.eval element.hint? e)
        let filler ← (List.replicate n element).mapM r'.default
        Run.newArray element (given ++ filler)) := by
    intro n
    refine hgiven.bind fun given _ => (hfiller n).bind fun filler _ => ?_
    rw [← List.map_append]
    exact Carries.newArray element (given ++ filler)
  unfold Evaluator.instantiateArray
  simp only [List.length_map]
  exact guarded Iff.rfl (hbuild _)

theorem instantiate (h : R.Follows r r') (t : Ty) (elements : List Expr) :
    R.Maps (Value.mapSpans R.span) (r.instantiate t elements)
      (r'.instantiate t (elements.map (Expr.mapSpans R.span))) := by
  cases t with
  | data name => exact h.instantiateData name elements
  | array element size => exact h.instantiateArray element size elements
  | vararg element => exact h.instantiateArray element none elements
  | _ => exact fail _

theorem arrayLiteral (h : R.Follows r r') (hint : Option Ty) (elements : List Expr) :
    R.Maps (Value.mapSpans R.span) (r.arrayLiteral hint elements)
      (r'.arrayLiteral hint (elements.map (Expr.mapSpans R.span))) := by
  have htyped : R.Maps (List.map fun p : Value × Ty => (p.1.mapSpans R.span, p.2))
      (elements.mapM fun e => do
        let v ← r.eval hint e
        return (v, ← Run.require .cannotInfer (← Run.typeOf v)))
      ((elements.map (Expr.mapSpans R.span)).mapM fun e => do
        let v ← r'.eval hint e
        return (v, ← Run.require .cannotInfer (← Run.typeOf v))) := by
    refine Carries.mapM (fun e => ?_) elements
    refine (h.eval hint e).bind fun v _ => (Carries.typeOf v).bind fun t _ => ?_
    have hrequire : R.Maps id (Run.require .cannotInfer t) (Run.require .cannotInfer t) :=
      require _ (congrFun Option.map_id t).symm fun _ _ => trivial
    exact hrequire.bind fun _ _ => pure rfl trivial
  have hbuild : ∀ (element : Ty) (typed : List (Value × Ty)), R.Maps (Value.mapSpans R.span)
      (do Run.newArray element (← typed.mapM fun p => Run.conform element p.1))
      (do Run.newArray element (← (typed.map fun p => (p.1.mapSpans R.span, p.2)).mapM fun p =>
        Run.conform element p.1)) := by
    intro element typed
    have hmap := Carries.mapM (k := fun p : Value × Ty => (p.1.mapSpans R.span, p.2))
      (v := fun p => Run.conform element p.1) (fun p => Carries.conform element p.1) typed
    exact hmap.bind fun values _ => Carries.newArray element values
  refine htyped.bind fun typed _ => ?_
  cases typed with
  | nil => exact hbuild _ []
  | cons p rest =>
    simp only [List.map_cons, List.foldl_map]
    exact hbuild _ (p :: rest)

theorem defaultValue (h : R.Follows r r') (t : Ty) :
    R.Maps (Value.mapSpans R.span) (r.defaultValue t) (r'.defaultValue t) := by
  cases t with
  | inferred => exact fail _
  | prim p => cases p <;> exact pure rfl trivial
  | array element size =>
    have hmap := Carries.mapM (k := id) h.default (List.replicate (size.getD 0) element)
    rw [List.map_id] at hmap
    exact hmap.bind fun vs _ => Carries.newArray element vs
  | vararg element => exact Carries.newArray element []
  | data name => exact h.instantiateData name []
  | enum name =>
    refine (reads fun s => s.env.enum?_mapSpans name).bind fun found _ => ?_
    refine (require (Q := fun _ => True) _ rfl fun _ _ => trivial).bind fun decl _ => ?_
    refine require _ ?_ fun _ _ => trivial
    rw [decl.values_mapSpans, List.head?_map]

theorem iterationValues (h : R.Follows r r') (iterable : Expr) :
    R.Maps (List.map (Value.mapSpans R.span)) (r.iterationValues iterable)
      (r'.iterationValues (iterable.mapSpans R.span)) := by
  have helements : R.Maps (List.map (Value.mapSpans R.span))
      (do Run.elementsOf (← r.eval none iterable))
      (do Run.elementsOf (← r'.eval none (iterable.mapSpans R.span))) :=
    (h.eval none iterable).bind fun v _ => Carries.elementsOf v
  unfold Evaluator.iterationValues
  rw [Expr.kind_mapSpans]
  cases hkind : iterable.kind with
  | type written =>
    refine (h.resolveType written).bind fun t _ => ?_
    cases t with
    | enum name =>
      refine (reads fun s => s.env.enum?_mapSpans name).bind fun found _ => ?_
      refine (require (Q := fun _ => True) _ rfl fun _ _ => trivial).bind fun decl _ => ?_
      exact pure decl.values_mapSpans trivial
    | _ => exact helements
  | _ => exact helements

end Recast.Follows

end BasicScript
