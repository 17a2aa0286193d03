import BasicScript.Eval.Call
import BasicScript.Proofs.Calls.Order
import BasicScript.Proofs.Recast.Statement

/-! # Recast calls

Arguments, overloads and their results. The errors that drop an overload or
leave a result slot empty are about types and defaults, so that an overflow of
the stack of calls passes wherever errors are looked at.
-/

namespace BasicScript

/-- The natives of a library do, from recast states and with recast arguments, what they do. -/
def Library.Recasts (R : Recast) (l : Library) : Prop :=
  ∀ {signature : String} {native : Builtin}, l.lookup signature = some native →
    ∀ {call call' : Caller},
      (∀ name vs, R.Maps (Value.mapSpans R.span) (call name vs)
        (call' name (vs.map (Value.mapSpans R.span)))) →
      ∀ vs, R.Maps (Value.mapSpans R.span) (native.function call vs)
        (native.function call' (vs.map (Value.mapSpans R.span)))

namespace Recast.Follows

open Recast.Carries (fail pure read reads require ite guarded failOn)

variable {R : Recast} {r r' : Evaluator}

theorem argument (h : R.Follows r r') (arg : Argument) :
    R.Maps (List.map (Pending.mapSpans R.span)) (r.argument arg)
      (r'.argument (arg.mapSpans R.span)) := by
  obtain ⟨spread, e⟩ := arg
  cases spread with
  | true =>
    refine (h.eval none e).bind fun v _ => ?_
    rw [Expr.span_mapSpans]
    refine ((Carries.elementsOf v).atSpan e.span).bind fun vs _ => pure ?_ trivial
    simp only [List.map_map]
    rfl
  | false =>
    refine ite (by rw [Expr.isUntyped_mapSpans]) (fun _ => pure rfl trivial) fun _ => ?_
    exact (h.eval none e).bind fun v _ => pure rfl trivial

theorem arguments (h : R.Follows r r') (args : List Argument) :
    R.Maps (List.map (Pending.mapSpans R.span)) (r.arguments args)
      (r'.arguments (args.map (Argument.mapSpans R.span))) := by
  induction args with
  | nil => exact pure rfl trivial
  | cons arg rest ih =>
    exact (h.argument arg).bind fun here _ => ih.bind fun there _ =>
      pure (List.map_append).symm trivial

theorem argumentValue (h : R.Follows r r') (t : Ty) (arg : Pending) :
    R.Maps (Value.mapSpans R.span) (r.argumentValue t arg)
      (r'.argumentValue t (arg.mapSpans R.span)) := by
  cases arg with
  | ready v => exact pure rfl trivial
  | deferred e => exact h.eval t.hint? e

/-- An argument on its way to a place of a type. -/
theorem conformArgument (h : R.Follows r r') (t : Ty) (arg : Pending) :
    R.Maps (Value.mapSpans R.span) (do Run.conform t (← r.argumentValue t arg))
      (do Run.conform t (← r'.argumentValue t (arg.mapSpans R.span))) :=
  (h.argumentValue t arg).bind fun v _ => Carries.conform t v

theorem bindArgument (h : R.Follows r r') (p : Parameter) (arg : Option Pending) :
    R.Maps (Option.map (Value.mapSpans R.span)) (r.bindArgument p arg)
      (r'.bindArgument (p.mapSpans R.span) (arg.map (Pending.mapSpans R.span))) := by
  cases arg with
  | none => exact pure rfl trivial
  | some arg =>
    refine ite (by rw [arg.isMissing_mapSpans, Sub.isVararg_mapSpans])
      (fun _ => pure rfl trivial) fun _ => ?_
    exact (h.argumentValue p.type arg).bind fun v _ => (Carries.conform p.type v).bind fun w _ =>
      pure rfl trivial

theorem bindFixed (h : R.Follows r r') (params : List Parameter) (args : List Pending) :
    R.Maps (List.map (Option.map (Value.mapSpans R.span))) (r.bindFixed params args)
      (r'.bindFixed (params.map (Parameter.mapSpans R.span))
        (args.map (Pending.mapSpans R.span))) := by
  induction params generalizing args with
  | nil => exact pure rfl trivial
  | cons p rest ih =>
    have hfirst := h.bindArgument p args.head?
    have hrest := ih args.tail
    rw [← List.head?_map] at hfirst
    rw [List.map_tail] at hrest
    exact hfirst.bind fun _ _ => hrest.bind fun _ _ => pure rfl trivial

theorem bindArguments (h : R.Follows r r') (sub : Sub) (args : List Pending) :
    R.Maps (List.map (Option.map (Value.mapSpans R.span))) (r.bindArguments sub args)
      (r'.bindArguments (sub.mapSpans R.span) (args.map (Pending.mapSpans R.span))) := by
  unfold Evaluator.bindArguments
  rw [Sub.fixed_mapSpans, Sub.vararg?_mapSpans, List.length_map]
  refine (h.bindFixed sub.fixed args).bind fun slots _ => ?_
  cases sub.vararg? with
  | none => exact pure rfl trivial
  | some p =>
    rw [← List.map_drop]
    refine (Carries.mapM (h.conformArgument _) (args.drop sub.fixed.length)).bind fun tail _ => ?_
    refine (Carries.newArray _ tail).bind fun array _ => pure ?_ trivial
    rw [List.map_append]
    rfl

theorem parameterDefault (h : R.Follows r r') {sub : Sub} (hsub : ScopePath.Outward sub.scope)
    (p : Parameter) :
    R.Maps (Value.mapSpans R.span) (r.parameterDefault sub p)
      (r'.parameterDefault (sub.mapSpans R.span) (p.mapSpans R.span)) := by
  unfold Evaluator.parameterDefault
  simp only [Parameter.mapSpans]
  cases p.default with
  | none => exact h.default p.type
  | some e => exact (h.eval p.type.hint? e).inLiveScope hsub

theorem filled (h : R.Follows r r') {sub : Sub} (hsub : ScopePath.Outward sub.scope)
    (p : Parameter) (slot : Option Value) :
    R.Maps (Value.mapSpans R.span) (r.filled sub p slot)
      (r'.filled (sub.mapSpans R.span) (p.mapSpans R.span)
        (slot.map (Value.mapSpans R.span))) := by
  cases slot with
  | none => exact (h.parameterDefault hsub p).bind fun v _ => Carries.conform p.type v
  | some v => exact pure rfl trivial

theorem fillDefaults (h : R.Follows r r') {sub : Sub} (hsub : ScopePath.Outward sub.scope)
    (params : List Parameter) (slots : List (Option Value)) :
    R.Maps (List.map (Value.mapSpans R.span)) (r.fillDefaults sub params slots)
      (r'.fillDefaults (sub.mapSpans R.span) (params.map (Parameter.mapSpans R.span))
        (slots.map (Option.map (Value.mapSpans R.span)))) := by
  induction params generalizing slots with
  | nil => exact pure rfl trivial
  | cons p rest ih =>
    cases slots with
    | nil => exact pure rfl trivial
    | cons slot slots =>
      exact (h.filled hsub p slot).bind fun _ _ => (ih slots).bind fun _ _ => pure rfl trivial

/-- An overload with the values of its parameters. -/
abbrev chosen (R : Recast) (c : Sub × List Value) : Sub × List Value :=
  (c.1.mapSpans R.span, c.2.map (Value.mapSpans R.span))

theorem firstAccepting (h : R.Follows r r') (name : String) (args : List Pending)
    (subs : List Sub) (hsubs : ∀ sub ∈ subs, ScopePath.Outward sub.scope) :
    R.Carries (fun c => ScopePath.Outward c.1.scope) (chosen R) (r.firstAccepting name args subs)
      (r'.firstAccepting name (args.map (Pending.mapSpans R.span))
        (subs.map (Sub.mapSpans R.span))) := by
  induction subs with
  | nil => exact fail _
  | cons sub rest ih =>
    obtain ⟨hsub, hrest⟩ := List.forall_mem_cons.mp hsubs
    refine (h.bindArguments sub args).either (fun slots _ => ?_) (fun e => ?_) fun e n he => ?_
    · exact (h.fillDefaults hsub sub.params slots).bind fun _ _ => pure rfl hsub
    · exact ite Iff.rfl (fun _ => ih hrest) fun _ => Carries.stop e
    -- an overflow is no fault about types
    · rw [he]
      rfl

theorem fittingOverloads (name : String) (count : Nat) :
    R.Carries (fun subs => ∀ sub ∈ subs, ScopePath.Outward sub.scope)
      (List.map (Sub.mapSpans R.span)) (Evaluator.fittingOverloads name count)
      (Evaluator.fittingOverloads name count) := by
  have hcandidates := read (R := R) (p := fun s => s.env.overloads name)
    (q := fun s => s.env.overloads name) (g := List.map (Sub.mapSpans R.span))
    (Q := fun subs => ∀ sub ∈ subs, ScopePath.Outward sub.scope)
    fun s hs => ⟨s.env.overloads_mapSpans name, fun sub hsub => hs.overloads hsub⟩
  refine hcandidates.bind fun candidates houtward => ?_
  have hfitting : (candidates.map (Sub.mapSpans R.span)).filter (·.fits count) =
      (candidates.filter (·.fits count)).map (Sub.mapSpans R.span) := by
    rw [List.filter_map]
    simp only [Function.comp_def, Sub.fits_mapSpans]
  simp only [hfitting, List.isEmpty_map]
  refine guarded Iff.rfl (guarded Iff.rfl (pure (Sub.byArity_mapSpans _) fun sub hsub => ?_))
  exact houtward sub (List.mem_of_mem_filter (Sub.mem_byArity.mp hsub))

theorem resolveOverload (h : R.Follows r r') (name : String) (args : List Pending) :
    R.Carries (fun c => ScopePath.Outward c.1.scope) (chosen R) (r.resolveOverload name args)
      (r'.resolveOverload name (args.map (Pending.mapSpans R.span))) := by
  unfold Evaluator.resolveOverload
  rw [List.length_map]
  exact (fittingOverloads name args.length).bind fun subs hsubs =>
    h.firstAccepting name args subs hsubs

theorem callNative (h : R.Follows r r') (hl : r.library.Recasts R) (sub : Sub)
    (bound : List Value) :
    R.Maps (Value.mapSpans R.span) (r.callNative sub bound)
      (r'.callNative (sub.mapSpans R.span) (bound.map (Value.mapSpans R.span))) := by
  unfold Evaluator.callNative
  rw [h.library]
  simp only [Sub.mapSpans]
  cases hnative : r.library.lookup sub.signature with
  | none => exact fail _
  | some native =>
    refine (hl hnative h.invoke bound).bind fun v _ => ?_
    have hadmits : R.Maps id (Run.read fun s => sub.returns.admits s.store v)
        (Run.read fun s => sub.returns.admits s.store (v.mapSpans R.span)) :=
      reads fun s => sub.returns.admits_mapSpans s.store v
    refine hadmits.bind fun admitted _ => ?_
    exact ite Iff.rfl (fun _ => pure rfl trivial) fun _ => failOn _ v

theorem declareParameters (params : List Parameter) (bound : List Value) :
    R.Maps id (Evaluator.declareParameters params bound)
      (Evaluator.declareParameters (params.map (Parameter.mapSpans R.span))
        (bound.map (Value.mapSpans R.span))) := by
  induction params generalizing bound with
  | nil => exact pure rfl trivial
  | cons p rest ih =>
    cases bound with
    | nil => exact pure rfl trivial
    | cons v vs =>
      exact (Carries.declareVariable p.name ⟨p.type, v, false⟩).bind fun _ _ => ih vs

theorem initialResult (h : R.Follows r r') (t : Ty) :
    R.Maps (Value.mapSpans R.span) (r.initialResult t) (r'.initialResult t) := by
  refine (h.default t).either (fun v _ => pure rfl trivial) (fun e => ?_) fun e n he => ?_
  · have hfault : (e.mapSpans R.span).fault = e.fault := rfl
    simp only [hfault]
    split
    · exact pure rfl trivial
    · exact Carries.stop e
  -- an overflow is no missing default
  · rw [he]

theorem bodyResult (sub : Sub) (slot : CellId) (flow : Flow) :
    R.Maps (Value.mapSpans R.span) (Evaluator.bodyResult sub slot flow)
      (Evaluator.bodyResult (sub.mapSpans R.span) slot (flow.mapSpans R.span)) := by
  have hslot : R.Maps (Value.mapSpans R.span)
      (do
        let v ← Run.read fun s => s.store.read slot
        if v.isMissing then Run.fail (.noYield sub.name) else Pure.pure v)
      (do
        let v ← Run.read fun s => s.store.read slot
        if v.isMissing then Run.fail (.noYield sub.name) else Pure.pure v) := by
    refine (reads fun s => s.store.read_mapSpans slot).bind fun v _ => ?_
    exact ite (by rw [v.isMissing_mapSpans]) (fun _ => fail _) fun _ => pure rfl trivial
  cases flow with
  | normal => exact hslot
  | signal s =>
    cases s with
    | leave => exact hslot
    | yield v => exact Carries.fit sub.returns v _
    | breakTo label => exact fail _
    | nextTo label => exact fail _

theorem runBody (h : R.Follows r r') {sub : Sub} (hsub : ScopePath.Outward sub.scope)
    (bound : List Value) :
    R.Maps (Value.mapSpans R.span) (r.runBody sub bound)
      (r'.runBody (sub.mapSpans R.span) (bound.map (Value.mapSpans R.span))) := by
  refine Carries.inLiveScope hsub ?_
  refine (declareParameters sub.params bound).bind fun _ _ => ?_
  refine (h.initialResult sub.returns).bind fun initial _ => ?_
  refine (Carries.declareVariable sub.name ⟨sub.returns, initial, false⟩).bind fun slot _ => ?_
  refine ((h.block sub.body).returning sub.returns).bind fun flow _ => ?_
  exact bodyResult sub slot flow

theorem callSub (h : R.Follows r r') (hl : r.library.Recasts R) {sub : Sub}
    (hsub : ScopePath.Outward sub.scope) (bound : List Value) (span : Span) :
    R.Maps (Value.mapSpans R.span) (r.callSub sub bound span)
      (r'.callSub (sub.mapSpans R.span) (bound.map (Value.mapSpans R.span)) (R.span span)) :=
  Carries.asCall ⟨sub.signature, span⟩ <|
    ite Iff.rfl (fun _ => h.callNative hl sub bound) fun _ => h.runBody hsub bound

theorem callPending (h : R.Follows r r') (hl : r.library.Recasts R) (name : String)
    (args : List Pending) (span : Span) :
    R.Maps (Value.mapSpans R.span) (r.callPending name args span)
      (r'.callPending name (args.map (Pending.mapSpans R.span)) (R.span span)) :=
  (h.resolveOverload name args).bind fun c hc => h.callSub hl hc c.2 span

theorem callValues (h : R.Follows r r') (hl : r.library.Recasts R) (name : String)
    (values : List Value) :
    R.Maps (Value.mapSpans R.span) (r.callValues name values)
      (r'.callValues name (values.map (Value.mapSpans R.span))) := by
  have hcall := h.callPending hl name (values.map .ready) .nowhere
  rw [R.nowhere, List.map_map] at hcall
  unfold Evaluator.callValues
  rw [List.map_map]
  exact hcall

theorem callExpr (h : R.Follows r r') (hl : r.library.Recasts R) (name : String)
    (receiver : Option Value) (args : List Argument) (span : Span) :
    R.Maps (Value.mapSpans R.span) (r.callExpr name receiver args span)
      (r'.callExpr name (receiver.map (Value.mapSpans R.span))
        (args.map (Argument.mapSpans R.span)) (R.span span)) := by
  refine (h.arguments args).bind fun pending _ => ?_
  have hcall := h.callPending hl name ((receiver.map .ready).toList ++ pending) span
  rw [List.map_append] at hcall
  cases receiver with
  | none => exact hcall
  | some v => exact hcall

end Recast.Follows

end BasicScript
