import BasicScript.Proofs.Calls.Order
import BasicScript.Proofs.Frame.Expression
import BasicScript.Proofs.Types.Statement

/-! # Types of calls

What is bound to a parameter has its type, a body starts from parameters that
have theirs, and the result slot is the only place that may start without a
value.
-/

namespace BasicScript

/-- The value of an argument is accounted for. -/
def Pending.Held (s : State) : Pending → Prop
  | .ready v => s.Holds v
  | .deferred _ => True

theorem Pending.Held.grows {s t : State} {arg : Pending} (h : arg.Held s) (hg : s.Grows t) :
    arg.Held t := by
  cases arg with
  | ready v => exact State.Holds.grows h hg
  | deferred e => trivial

/-- Natives keep the types, over a caller that does. -/
def Library.Sound (l : Library) : Prop :=
  ∀ signature native, l.lookup signature = some native → ∀ call : Caller,
    (∀ name args s, (∀ v ∈ args, s.Holds v) → (call name args).Sound s .value) →
      ∀ args s, (∀ v ∈ args, s.Holds v) → (native.function call args).Sound s .value

namespace Claim

/-- All arguments are accounted for. -/
def arguments : Claim (List Pending) := fun args t => ∀ arg ∈ args, arg.Held t

/-- What is bound to a parameter has its type. -/
def slot (p : Parameter) : Claim (Option Value) := fun slot t => ∀ v, slot = some v → t.Has p.type v

/-- An overload of some scope, with values for its parameters. -/
def chosen : Claim (Sub × List Value) := fun c t =>
  t.HasSub c.1 ∧ List.Forall₂ (fun p v => t.Has p.type v) c.1.params c.2

theorem slot_stable (p : Parameter) : Stable (slot p) :=
  fun _ _ _ hg h v hv => (h v hv).grows hg

end Claim

namespace Evaluator.Sound

open Run.Sound (pure fail failOn readBind requireBind ite typed)

variable {r : Evaluator} {s : State}

theorem argument (h : r.Sound) (arg : Argument) : (r.argument arg).Sound s .arguments := by
  have hready : ∀ (vs : List Value) (t : State), (∀ v ∈ vs, t.Holds v) →
      Claim.arguments (vs.map .ready) t := by
    intro vs t hvs arg harg
    obtain ⟨v, hv, rfl⟩ := List.mem_map.mp harg
    exact hvs v hv
  obtain ⟨spread, e⟩ := arg
  cases spread with
  | true =>
    refine (h.eval _ e s).bind fun v t _ _ => ?_
    exact Run.Sound.bind (.atSpan _ .elementsOf) fun vs u _ hvs => pure (hready vs u hvs)
  | false =>
    refine ite (fun _ => pure fun arg harg => ?_) fun _ => ?_
    · rw [List.mem_singleton.mp harg]
      trivial
    · refine (h.eval _ e s).bind fun v t _ hv => pure (hready [v] t fun w hw => ?_)
      rwa [List.mem_singleton.mp hw]

theorem arguments (h : r.Sound) (args : List Argument) :
    (r.arguments args).Sound s .arguments := by
  induction args generalizing s with
  | nil => exact pure fun _ ha => nomatch ha
  | cons arg rest ih =>
    refine (h.argument arg).bind fun here t _ hhere => ih.bind fun later u hg hlater => ?_
    exact pure fun arg harg => (List.mem_append.mp harg).elim
      (fun harg => (hhere arg harg).grows hg) (hlater arg)

theorem argumentValue (h : r.Sound) (t : Ty) {arg : Pending} (harg : arg.Held s) :
    (r.argumentValue t arg).Sound s .value := by
  cases arg with
  | ready v => exact pure harg
  | deferred e => exact h.eval _ e s

theorem bindArgument (h : r.Sound) (p : Parameter) {arg : Option Pending}
    (harg : ∀ a, arg = some a → a.Held s) : (r.bindArgument p arg).Sound s (.slot p) := by
  cases arg with
  | none => exact pure fun _ hv => nomatch hv
  | some arg =>
    refine ite (fun _ => pure fun _ hv => nomatch hv) fun _ => ?_
    refine (h.argumentValue _ (harg arg rfl)).bind fun v t _ hv => ?_
    refine (Run.Sound.conform hv).bind fun w u _ hw => pure fun v hv => ?_
    cases hv
    exact hw

theorem bindFixed (h : r.Sound) (ps : List Parameter) {args : List Pending}
    (hargs : ∀ arg ∈ args, arg.Held s) : (r.bindFixed ps args).Sound s fun slots t =>
      List.Forall₂ (fun p slot => Claim.slot p slot t) ps slots := by
  induction ps generalizing s args with
  | nil => exact pure .nil
  | cons p ps ih =>
    refine (h.bindArgument p fun a ha => hargs a (List.mem_of_mem_head? ha)).bind
      fun slot t hg hslot => ?_
    refine (ih fun a ha => (hargs a (List.mem_of_mem_tail ha)).grows hg).bind
      fun slots u hg' hslots => pure (.cons ?_ hslots)
    exact Claim.slot_stable p slot t u hg' hslot

theorem bindArguments (h : r.Sound) (sub : Sub) {args : List Pending}
    (hargs : ∀ arg ∈ args, arg.Held s) : (r.bindArguments sub args).Sound s fun slots t =>
      List.Forall₂ (fun p slot => Claim.slot p slot t) sub.params slots := by
  refine (h.bindFixed _ hargs).bind fun slots t hg hslots => ?_
  rw [sub.params_fixed]
  split
  · next hnone =>
    rw [hnone, Option.toList_none, List.append_nil]
    exact pure hslots
  · next p hp =>
    obtain ⟨element, helement⟩ := Sub.vararg_type hp
    rw [hp, Option.toList_some]
    simp only [helement, Ty.element?, Option.getD_some]
    refine (Run.Sound.mapM (Claim.valueOf_stable element) _ fun arg harg u hg' => ?_).bind
      fun tail u hg' htail => ?_
    · refine (h.argumentValue _ ?_).bind fun v u' _ hv => .conform hv
      exact (hargs arg (List.mem_of_mem_drop harg)).grows (hg.trans hg')
    · refine (newArray (t := .vararg element) rfl htail.2 fun _ hn => nomatch hn).bind
        fun v u' hg'' hv => pure ?_
      refine List.rel_append ?_ (.cons ?_ .nil)
      · exact hslots.imp fun p slot => Claim.slot_stable p slot t u' (hg'.trans hg'')
      · intro w hw
        cases hw
        rw [helement]
        exact hv

theorem parameterDefault (h : r.Sound) (sub : Sub) (p : Parameter) :
    (r.parameterDefault sub p).Sound s .value := by
  unfold Evaluator.parameterDefault
  split
  · exact .inLiveScope Claim.value_stable (h.eval _ _ _)
  · exact (h.default _ s).weaken fun _ _ _ hv => hv.holds

theorem filled (h : r.Sound) (sub : Sub) {p : Parameter} {slot : Option Value}
    (hslot : Claim.slot p slot s) : (r.filled sub p slot).Sound s (.valueOf p.type) := by
  cases slot with
  | some v => exact pure (hslot v rfl)
  | none => exact (h.parameterDefault sub p).bind fun v t _ hv => .conform hv

theorem fillDefaults (h : r.Sound) (sub : Sub) {ps : List Parameter}
    {slots : List (Option Value)}
    (hslots : List.Forall₂ (fun p slot => Claim.slot p slot s) ps slots) :
    (r.fillDefaults sub ps slots).Sound s fun vs t =>
      List.Forall₂ (fun p v => t.Has p.type v) ps vs := by
  induction ps generalizing s slots with
  | nil => exact pure .nil
  | cons p ps ih =>
    obtain ⟨slot, slots, hslot, hrest, rfl⟩ := List.forall₂_cons_left_iff.mp hslots
    refine (h.filled sub hslot).bind fun v t hg hv => ?_
    refine (ih (hrest.imp fun q slot => Claim.slot_stable q slot s t hg)).bind
      fun vs u hg' hvs => pure (.cons (hv.grows hg') hvs)

theorem firstAccepting (h : r.Sound) (name : String) {args : List Pending} {subs : List Sub}
    (hargs : ∀ arg ∈ args, arg.Held s) (hsubs : ∀ sub ∈ subs, s.HasSub sub) :
    (r.firstAccepting name args subs).Sound s .chosen := by
  induction subs generalizing s with
  | nil => exact fail _
  | cons sub rest ih =>
    rw [List.forall_mem_cons] at hsubs
    refine (h.bindArguments sub hargs).either (fun slots t hg hslots => ?_) fun e t hg => ?_
    · refine (h.fillDefaults sub hslots).bind fun vs u hg' hvs => pure ⟨?_, hvs⟩
      exact hsubs.1.grows (hg.trans hg')
    · refine ite (fun _ => ih (fun a ha => (hargs a ha).grows hg) fun sub' hsub' => ?_)
        fun _ => .stop e
      exact (hsubs.2 sub' hsub').grows hg

theorem fittingOverloads (name : String) (count : Nat) :
    (Evaluator.fittingOverloads name count).Sound s fun subs t => ∀ sub ∈ subs, t.HasSub sub := by
  refine readBind (ite (fun _ => .failBind _) fun _ => ite (fun _ => .failBind _) fun _ =>
    pure fun sub hsub => ?_)
  exact Environment.mem_overloads (List.mem_filter.mp (Sub.mem_byArity.mp hsub)).1

theorem resolveOverload (h : r.Sound) (name : String) {args : List Pending}
    (hargs : ∀ arg ∈ args, arg.Held s) : (r.resolveOverload name args).Sound s .chosen :=
  (fittingOverloads name _).bind fun _ _ hg hsubs =>
    h.firstAccepting name (fun a ha => (hargs a ha).grows hg) hsubs

theorem callNative (h : r.Sound) (hl : r.library.Sound) (sub : Sub) {bound : List Value}
    (hbound : ∀ v ∈ bound, s.Holds v) : (r.callNative sub bound).Sound s .value := by
  unfold Evaluator.callNative
  split
  · exact fail _
  · next native hlookup =>
    refine (hl _ _ hlookup r.invoke h.invoke bound s hbound).bind fun v t _ hv => ?_
    exact readBind (ite (fun _ => pure hv) fun _ => failOn _ v)

/-- The parameters of a call enter the current scope one after another. -/
theorem declareParameters {ps : List Parameter} {vs : List Value} {sc : Scope}
    (hvs : List.Forall₂ (fun p v => s.Has p.type v) ps vs)
    (hsc : s.env.scopes[s.env.currentId.index]? = some sc) :
    (Evaluator.declareParameters ps vs).Sound s fun _ t =>
      t.env.currentId = s.env.currentId ∧ ∃ params sc',
        t.env.scopes[s.env.currentId.index]? = some sc' ∧ sc'.cells = params ++ sc.cells ∧
          params.map Prod.fst = (ps.map Parameter.name).reverse := by
  induction ps generalizing s vs sc with
  | nil => exact pure ⟨rfl, [], sc, hsc, rfl, rfl⟩
  | cons p ps ih =>
    obtain ⟨v, vs, hv, hrest, rfl⟩ := List.forall₂_cons_left_iff.mp hvs
    refine (Run.Sound.declareVariable (c := ⟨p.type, v, false⟩) fun _ => .inr hv).bind
      fun id t hg ht => ?_
    obtain ⟨-, rfl⟩ := ht
    refine (ih (hrest.imp fun _ _ hw => hw.grows hg) (State.withVariable_scope _ _ hsc)).weaken ?_
    rintro _ t - ⟨hid, params, sc', hsc', hcells, hnames⟩
    refine ⟨hid, params ++ [(p.name, (s.store.newCell ⟨p.type, v, false⟩).1)], sc', hsc',
      hcells.trans ?_, ?_⟩
    · rw [List.append_assoc, List.singleton_append]
    · rw [List.map_append, hnames]
      exact List.reverse_cons.symm

/-- The result slot starts with a value of the return type, or without one. -/
theorem initialResult (h : r.Sound) (t : Ty) : (r.initialResult t).Sound s fun v u =>
    (v.isMissing = true ∨ u.Has t v) ∧ Frame False s u := by
  refine Run.Sound.framed ?_ ((Precedes.initialResult (c := False) (fun t =>
    .same (h.framed t)) t).frame s)
  refine (h.default t s).either (fun v u _ hv => pure (.inr hv)) fun e u _ => ?_
  split
  · exact pure (.inl rfl)
  · exact .stop e

/-- Of the ways in which a body ends, a yield is fitted to the return type, and what else gives
a result leaves it in a cell of that type. -/
theorem bodyResult {sub : Sub} {slot : CellId} {flow : Flow}
    (hbound : slot.index < s.store.cells.size) (htype : (s.store.cell slot).type = sub.returns)
    (hflow : Claim.flow flow s) :
    (Evaluator.bodyResult sub slot flow).Sound s (.valueOf sub.returns) := by
  have hslot : (do
      let v ← Run.read fun s => s.store.read slot
      if v.isMissing then Run.fail (.noYield sub.name) else Pure.pure v : Run Value).Sound s
        (.valueOf sub.returns) := by
    refine typed fun hs => readBind (ite (fun _ => fail _) fun hpresent => pure ?_)
    rw [← htype]
    exact hs.store.cell_has hbound (Bool.eq_false_of_not_eq_true hpresent)
  unfold Evaluator.bodyResult
  split
  · exact hslot
  · exact hslot
  · exact .fit (Claim.flow_held hflow)
  · exact fail _

theorem runBody (h : r.Sound) {sub : Sub} {bound : List Value} (hsub : s.HasSub sub)
    (hbound : List.Forall₂ (fun p v => s.Has p.type v) sub.params bound) :
    (r.runBody sub bound).Sound s (.valueOf sub.returns) := by
  refine .inLiveScope (Claim.valueOf_stable _) ?_
  have hpush : s.Grows { s with env := s.env.pushBelow sub.scope } :=
    ⟨.refl _, .push Scope.Extends.refl _ _⟩
  have hblank : (s.env.pushBelow sub.scope).scopes[s.env.scopes.size]? = some .blank :=
    Array.getElem?_push_size
  refine (declareParameters (hbound.imp fun _ _ hv => hv.grows hpush) hblank).bind ?_
  rintro _ t ht ⟨hid, params, sc, hsc, hcells, hnames⟩
  refine (h.initialResult sub.returns).bind fun initial u hu hinitial => ?_
  have hfresh : ((u.store.newCell ⟨sub.returns, initial, false⟩).2.cell
      (u.store.newCell ⟨sub.returns, initial, false⟩).1).type = sub.returns := by
    show (((u.store.cells.push _)[u.store.cells.size]?).getD _).type = _
    rw [Array.getElem?_push_size, Option.getD_some]
  refine Run.Sound.bind (Run.Sound.declareVariable (c := ⟨sub.returns, initial, false⟩) fun _ =>
    hinitial.1.imp_left fun hmissing => ⟨hmissing, ?_⟩) ?_
  · have hgrows := hpush.trans (ht.trans (hu.trans (u.withVariable_grows sub.name
      ⟨sub.returns, initial, false⟩)))
    have hscope : u.env.scopes[u.env.currentId.index]? = some sc := by
      have hbound := (Array.getElem?_eq_some_iff.mp hsc).1
      rw [hinitial.2.currentId, hid, hinitial.2.tables _ hbound False.elim]
      exact hsc
    refine ⟨sub, params, _, _, hsub.grows hgrows, State.withVariable_scope _ _ hscope, ?_,
      hnames, hfresh⟩
    have hparams : sc.cells = params := hcells.trans (List.append_nil params)
    exact hparams ▸ List.suffix_rfl
  · rintro slot u' - ⟨rfl, rfl⟩
    refine Run.Sound.bind (.returning Claim.flow_stable (h.block _)) fun flow w hw hflow => ?_
    have hslot : (u.store.newCell ⟨sub.returns, initial, false⟩).1.index <
        (u.withVariable sub.name ⟨sub.returns, initial, false⟩).store.cells.size := by
      show u.store.cells.size < (u.store.cells.push _).size
      rw [Array.size_push]
      exact Nat.lt_succ_self _
    exact bodyResult (Nat.lt_of_lt_of_le hslot hw.store.cells.size_le)
      ((hw.store.cell hslot).type.trans hfresh) hflow

theorem bound_hold {ps : List Parameter} {vs : List Value}
    (h : List.Forall₂ (fun p v => s.Has p.type v) ps vs) : ∀ v ∈ vs, s.Holds v := by
  induction h with
  | nil => exact fun _ hv => nomatch hv
  | cons hv _ ih => exact List.forall_mem_cons.mpr ⟨hv.holds, ih⟩

theorem callSub (h : r.Sound) (hl : r.library.Sound) {sub : Sub} {bound : List Value}
    (hsub : s.HasSub sub) (hbound : List.Forall₂ (fun p v => s.Has p.type v) sub.params bound)
    (span : Span) : (r.callSub sub bound span).Sound s .value := by
  refine .asCall Claim.value_stable fun calls => ite (fun _ => ?_) fun _ => ?_
  · exact h.callNative hl sub (bound_hold hbound)
  · exact (h.runBody (s := { s with calls := calls }) hsub hbound).weaken
      fun _ _ _ hv => hv.holds

theorem callPending (h : r.Sound) (hl : r.library.Sound) (name : String) {args : List Pending}
    (hargs : ∀ arg ∈ args, arg.Held s) (span : Span) :
    (r.callPending name args span).Sound s .value :=
  (h.resolveOverload name hargs).bind fun _ _ _ hchosen => h.callSub hl hchosen.1 hchosen.2 span

theorem callValues (h : r.Sound) (hl : r.library.Sound) (name : String) {values : List Value}
    (hvalues : ∀ v ∈ values, s.Holds v) : (r.callValues name values).Sound s .value := by
  refine h.callPending hl name (fun arg harg => ?_) _
  obtain ⟨v, hv, rfl⟩ := List.mem_map.mp harg
  exact hvalues v hv

theorem callExpr (h : r.Sound) (hl : r.library.Sound) (name : String) {receiver : Option Value}
    (hreceiver : ∀ v, receiver = some v → s.Holds v) (args : List Argument) (span : Span) :
    (r.callExpr name receiver args span).Sound s .value := by
  refine (h.arguments args).bind fun pending t hg hpending => ?_
  refine h.callPending hl name (fun arg harg => ?_) span
  rcases List.mem_append.mp harg with harg | harg
  · obtain ⟨v, hv, rfl⟩ := Option.map_eq_some_iff.mp (Option.mem_toList.mp harg)
    exact State.Holds.grows (hreceiver v hv) hg
  · exact hpending arg harg

end Evaluator.Sound

end BasicScript
