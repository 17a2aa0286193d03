import BasicScript.Proofs.Calls.Order
import BasicScript.Proofs.Law.Statement

/-! # Calls and expressions under a law

A call obeys a law where the bodies of subs do, with room for one call less;
an expression, where its parts and calls do.
-/

namespace BasicScript

/-- Whether a statement list has ended in a way that a call can take. -/
def Flow.settled : Flow → Bool
  | .signal (.breakTo _) | .signal (.nextTo _) => false
  | _ => true

/-- The expression of an argument. -/
def Argument.expr : Argument → Expr
  | .mk _ e => e

namespace ExprKind

/-- The expressions in a form, those in its types included. -/
def operands : ExprKind → List Expr
  | .type written => written.sizes
  | .array elements => elements
  | .unary _ operand => [operand]
  | .binary _ left right => [left, right]
  | .getIndex target index => [target, index]
  | .setIndex target index value => [target, index, value]
  | .getMember target _ => [target]
  | .setMember target _ value => [target, value]
  | .invoke _ args => args.map Argument.expr
  | .instantiate target elements => target.elim [] TypeExpr.sizes ++ elements
  | _ => []

/-- The expressions that a form may evaluate. An operator can take its right operand apart. -/
def parts : ExprKind → List Expr
  | .binary _ left right => left :: right :: right.kind.operands
  | kind => kind.operands

/-- The sub that a call expression names. -/
def invoked : ExprKind → List String
  | .invoke callee _ => [callee]
  | _ => []

/-- Names of the subs that a form may call. -/
def calls : ExprKind → List String
  | .unary op _ => op.subName?.toList
  | .binary op _ right => op.subName?.toList ++ right.kind.invoked
  | kind => kind.invoked

/-- Types that a form may make a value of, where names stand for some types and the context may
expect one. -/
def Makes (named : String → Ty → Prop) (hint : Option Ty) : ExprKind → Ty → Prop
  | .type written, t | .instantiate (some written) _, t => written.Gives named t
  | .instantiate none _, t => t ∈ hint
  | _, _ => False

theorem sizeOf_operand {kind : ExprKind} {e : Expr} (h : e ∈ kind.operands) :
    sizeOf e < sizeOf kind := by
  cases kind with
  | type written =>
    have hsize := TypeExpr.sizeOf_size (show e ∈ written.sizes from h)
    simp only [ExprKind.type.sizeOf_spec]
    omega
  | array elements =>
    have hsize := List.sizeOf_lt_of_mem (show e ∈ elements from h)
    simp only [ExprKind.array.sizeOf_spec]
    omega
  | invoke name args =>
    obtain ⟨⟨spread, e⟩, harg, rfl⟩ := List.mem_map.mp h
    have hsize := List.sizeOf_lt_of_mem harg
    simp only [Argument.expr, Argument.mk.sizeOf_spec, ExprKind.invoke.sizeOf_spec] at hsize ⊢
    omega
  | instantiate target elements =>
    rcases List.mem_append.mp h with hsizes | helements
    · cases target with
      | none => cases hsizes
      | some written =>
        have hsize := TypeExpr.sizeOf_size (show e ∈ written.sizes from hsizes)
        simp only [ExprKind.instantiate.sizeOf_spec, Option.some.sizeOf_spec]
        omega
    · have hsize := List.sizeOf_lt_of_mem helements
      simp only [ExprKind.instantiate.sizeOf_spec]
      omega
  | unary | binary | getIndex | setIndex | getMember | setMember =>
    simp only [operands, List.mem_cons, List.not_mem_nil, or_false] at h
    simp
    grind
  | _ => cases h

theorem sizeOf_part {kind : ExprKind} {e : Expr} (h : e ∈ kind.parts) : sizeOf e < sizeOf kind := by
  cases kind with
  | binary op left right =>
    rcases List.mem_cons.mp h with rfl | h
    · simp only [ExprKind.binary.sizeOf_spec]
      omega
    · rcases List.mem_cons.mp h with rfl | h
      · simp only [ExprKind.binary.sizeOf_spec]
        omega
      · obtain ⟨kind, span⟩ := right
        have hsize := sizeOf_operand (show e ∈ kind.operands from h)
        simp only [ExprKind.binary.sizeOf_spec, Expr.mk.sizeOf_spec]
        omega
  | _ => exact sizeOf_operand h

end ExprKind

namespace Law

variable {ι : Type} {L : Law ι} {r : ι → Evaluator} {room : Option Nat} {p : Site}

/-- What calls need besides values for the open parameters: with room for one call less, bodies
that end in a way that a call can take. -/
structure Bodies (L : Law ι) (r : ι → Evaluator) (room : Option Nat) : Prop where
  library : L.Stocked r
  blocks : room ≠ some 0 → ∀ sub, L.sub sub → ∀ p,
    L.Holds (room.map (· - 1)) p (fun i => (r i).block sub.body)
      fun flow => L.strays ∨ flow.settled = true
  results : room ≠ some 0 → ∀ t, L.Defaults r (room.map (· - 1)) t

/-- Parameters of the overloads of a name obey the law where they are left open. -/
def Fills (L : Law ι) (r : ι → Evaluator) (room : Option Nat) (name : String) : Prop :=
  ∀ sub, L.sub sub → sub.name = name → ∀ q ∈ sub.params,
    (∀ e ∈ q.default, L.Evals r room e) ∧ (q.default = none → L.Defaults r room q.type)

open Holds (pure fail read of_local)

section Calls

theorem argument {arg : Argument} (h : L.Evals r room arg.expr) :
    L.Holds room p (fun i => (r i).argument arg) fun pending =>
      ∀ e, .deferred e ∈ pending → L.Evals r room e := by
  obtain ⟨spread, e⟩ := arg
  have he : L.Evals r room e := h
  cases spread with
  | true =>
    refine (he p none).bind fun v _ => ?_
    refine (Holds.atSpan _ (of_local (.elementsOf v))).bind fun vs _ => pure fun e hmem => ?_
    obtain ⟨w, -, hw⟩ := List.mem_map.mp hmem
    exact nomatch hw
  | false =>
    refine .ite (fun _ => pure fun e' hmem => ?_) fun _ => (he p none).bind fun v _ =>
      pure fun e' hmem => ?_
    · cases List.mem_singleton.mp hmem
      exact he
    · exact nomatch List.mem_singleton.mp hmem

theorem arguments {args : List Argument} (h : ∀ arg ∈ args, L.Evals r room arg.expr) :
    L.Holds room p (fun i => (r i).arguments args) fun pending =>
      ∀ e, .deferred e ∈ pending → L.Evals r room e := by
  induction args with
  | nil => exact pure fun _ hmem => nomatch hmem
  | cons arg rest ih =>
    rw [List.forall_mem_cons] at h
    refine (argument h.1).bind fun here hhere => (ih h.2).bind fun later hlater => ?_
    exact pure fun e hmem => (List.mem_append.mp hmem).elim (hhere e) (hlater e)

variable {args : List Pending}

theorem argumentValue (t : Ty) {arg : Pending} (h : ∀ e, arg = .deferred e → L.Evals r room e) :
    L.Runs room p fun i => (r i).argumentValue t arg := by
  cases arg with
  | ready v => exact pure trivial
  | deferred e => exact h e rfl p _

/-- What is fitted to a typed place suits the type. -/
theorem conform (t : Ty) (v : Value) :
    L.Holds room p (fun _ => Run.conform t v) (t.suits · = true) :=
  .of_local_claim (.conform t v) fun _ _ _ h => Run.conform_suits h

/-- What is bound to a parameter, if anything is, suits it. -/
abbrev Slot (q : Parameter) (slot : Option Value) : Prop := ∀ v ∈ slot, q.Suits v

theorem bindArgument (q : Parameter) {arg : Option Pending}
    (h : ∀ e, arg = some (.deferred e) → L.Evals r room e) :
    L.Holds room p (fun i => (r i).bindArgument q arg) (Slot q) := by
  cases arg with
  | none => exact pure fun _ hv => nomatch hv
  | some arg =>
    refine .ite (fun _ => pure fun _ hv => nomatch hv) fun _ => ?_
    refine (argumentValue q.type fun e he => h e (congrArg some he)).bind fun v _ => ?_
    refine (conform q.type v).bind fun w hw => pure ?_
    rintro _ ⟨⟩
    exact hw

theorem bindFixed (qs : List Parameter) (h : ∀ e, .deferred e ∈ args → L.Evals r room e) :
    L.Holds room p (fun i => (r i).bindFixed qs args) (List.Forall₂ Slot qs) := by
  induction qs generalizing args with
  | nil => exact pure .nil
  | cons q qs ih =>
    refine (bindArgument q fun e he => h e (List.mem_of_mem_head? he)).bind fun slot hslot => ?_
    refine (ih fun e he => h e (List.mem_of_mem_tail he)).bind fun slots hslots => ?_
    exact pure (.cons hslot hslots)

theorem bindArguments (sub : Sub) (h : ∀ e, .deferred e ∈ args → L.Evals r room e) :
    L.Holds room p (fun i => (r i).bindArguments sub args) (List.Forall₂ Slot sub.params) := by
  rw [sub.params_fixed]
  refine (bindFixed sub.fixed h).bind fun slots hslots => ?_
  cases hvararg : sub.vararg? with
  | none =>
    rw [Option.toList_none, List.append_nil]
    exact pure hslots
  | some q =>
    refine (Holds.mapM_runs _ fun arg harg => ?_).bind fun tail _ => ?_
    · refine (argumentValue _ fun e he => h e ?_).bind fun v _ => of_local (.conform _ v)
      exact he ▸ List.mem_of_mem_drop harg
    · obtain ⟨element, helement⟩ := Sub.vararg_type hvararg
      refine (Holds.of_local_claim (P := q.Suits) (.newArray _ tail) ?_).bind
        fun v hv => pure (List.rel_append hslots (.cons ?_ .nil))
      · rintro s _ t ⟨⟩
        rw [Parameter.Suits, helement]
        rfl
      · rintro _ ⟨⟩
        exact hv

theorem parameterDefault {sub : Sub} (hscope : L.Sees p sub.scope) {q : Parameter}
    (hq : (∀ e ∈ q.default, L.Evals r room e) ∧ (q.default = none → L.Defaults r room q.type)) :
    L.Runs room p fun i => (r i).parameterDefault sub q := by
  unfold Evaluator.parameterDefault
  cases hdefault : q.default with
  | none => exact hq.2 hdefault p
  | some e => exact .inLiveScope hscope fun p' => hq.1 e hdefault p' _

theorem fillDefaults {sub : Sub} (hscope : L.Sees p sub.scope) {qs : List Parameter}
    (hqs : ∀ q ∈ qs, (∀ e ∈ q.default, L.Evals r room e) ∧
      (q.default = none → L.Defaults r room q.type)) {slots : List (Option Value)}
    (hslots : List.Forall₂ Slot qs slots) :
    L.Holds room p (fun i => (r i).fillDefaults sub qs slots)
      (List.Forall₂ Parameter.Suits qs) := by
  induction hslots with
  | nil => exact pure .nil
  | @cons q slot qs slots hslot _ ih =>
    rw [List.forall_mem_cons] at hqs
    have hfilled : L.Holds room p (fun i => (r i).filled sub q slot) q.Suits := by
      cases slot with
      | some v => exact pure (hslot v rfl)
      | none => exact (parameterDefault hscope hqs.1).bind fun v _ => conform q.type v
    exact hfilled.bind fun v hv => (ih hqs.2).bind fun vs hvs => pure (.cons hv hvs)

/-- An overload that has been chosen is one that a call can be made of, with values that suit it. -/
theorem firstAccepting {name : String} (h : L.Fills r room name) {subs : List Sub}
    (hargs : ∀ e, .deferred e ∈ args → L.Evals r room e)
    (hsubs : ∀ sub ∈ subs, L.sub sub ∧ sub.name = name ∧ L.Sees p sub.scope) :
    L.Holds room p (fun i => (r i).firstAccepting name args subs) fun c =>
      L.sub c.1 ∧ L.Sees p c.1.scope ∧ c.1.Suited c.2 := by
  induction subs with
  | nil => exact fail rfl
  | cons sub rest ih =>
    rw [List.forall_mem_cons] at hsubs
    obtain ⟨⟨htext, hname, hscope⟩, hrest⟩ := hsubs
    refine (bindArguments sub hargs).either (fun slots hslots => ?_) fun e he => ?_
    · exact (fillDefaults hscope (h sub htext hname) hslots).bind fun vs hvs =>
        pure ⟨htext, hscope, hvs⟩
    · exact .ite (fun _ => ih hrest) fun _ => .stop he

theorem fittingOverloads (name : String) (count : Nat) :
    L.Holds room p (fun _ => Evaluator.fittingOverloads name count) fun subs =>
      ∀ sub ∈ subs, L.sub sub ∧ sub.name = name ∧ L.Sees p sub.scope := by
  refine (Holds.overloads name).bind fun candidates hcandidates => .guarded rfl (.guarded rfl ?_)
  exact pure fun sub hsub => hcandidates sub (List.mem_filter.mp (Sub.mem_byArity.mp hsub)).1

theorem callNative (h : L.Stocked r) {sub : Sub} (hsub : L.sub sub) (hnative : sub.native = true)
    {bound : List Value} (hbound : sub.Suited bound) :
    L.Runs room p fun i => (r i).callNative sub bound := by
  obtain ⟨x, hx, hsame⟩ := h.calls sub hsub hnative bound hbound
  simp only [hsame]
  exact of_local hx

theorem declareParameters (qs : List Parameter) (vs : List Value) :
    L.Runs room p fun _ => Evaluator.declareParameters qs vs := by
  induction qs generalizing vs with
  | nil => exact pure trivial
  | cons q qs ih =>
    cases vs with
    | nil => exact pure trivial
    | cons v vs => exact (Holds.declareVariable q.name _).bind fun _ _ => ih vs

theorem initialResult {t : Ty} (h : L.Defaults r room t) :
    L.Runs room p fun i => (r i).initialResult t := by
  refine (h p).either (fun v _ => pure trivial) fun e he => ?_
  cases e.fault with
  | noDefault t => exact pure trivial
  | _ => exact .stop he

/-- A body that a call can take the result of raises no fault of control. -/
theorem bodyResult (sub : Sub) (slot : CellId) {flow : Flow}
    (h : L.strays ∨ flow.settled = true) :
    L.Runs room p fun _ => Evaluator.bodyResult sub slot flow := by
  have hslot : L.Runs room p fun _ => (do
      let v ← Run.read fun s => s.store.read slot
      if v.isMissing then Run.fail (.noYield sub.name) else Pure.pure v : Run Value) :=
    (of_local (.read fun σ => σ.read slot)).bind fun v _ =>
      .ite (fun _ => fail rfl) fun _ => pure trivial
  cases flow with
  | normal => exact hslot
  | signal signal =>
    cases signal with
    | leave => exact hslot
    | yield v => exact of_local (.fit _ v fun _ _ => rfl)
    | breakTo label => exact .strayed (h.imp_right fun hf => nomatch hf) nofun
    | nextTo label => exact .strayed (h.imp_right fun hf => nomatch hf) nofun

/-- The body of a sub, where the scope of the sub has been entered. -/
theorem enteredBody {t : Ty} (sub : Sub) (bound : List Value) (hresult : L.Defaults r room t)
    (hbody : ∀ p, L.Holds room p (fun i => (r i).block sub.body)
      fun flow => L.strays ∨ flow.settled = true) :
    L.Runs room p fun i => (do
      Evaluator.declareParameters sub.params bound
      let initial ← (r i).initialResult t
      let slot ← Run.declareVariable sub.name ⟨t, initial, false⟩
      let flow ← Run.returning t ((r i).block sub.body)
      Evaluator.bodyResult sub slot flow : Run Value) := by
  refine (declareParameters sub.params bound).bind fun _ _ => ?_
  refine (initialResult hresult).bind fun initial _ => ?_
  refine (Holds.declareVariable sub.name _).bind fun slot _ => ?_
  exact (Holds.returning (hbody p)).bind fun flow hflow => bodyResult sub slot hflow

theorem callSub (h : L.Bodies r room) {sub : Sub} (hsub : L.sub sub)
    (hscope : L.Sees p sub.scope) {bound : List Value} (hbound : sub.Suited bound) (span : Span) :
    L.Runs room p fun i => (r i).callSub sub bound span := by
  refine .asCall fun hroom =>
    .ite (fun hnative => callNative h.library hsub hnative hbound) fun _ => ?_
  exact .inLiveScope hscope fun q => enteredBody sub bound (h.results hroom sub.returns)
    (h.blocks hroom sub hsub)

theorem resolveOverload {name : String} (hname : L.Fills r room name)
    (hargs : ∀ e, .deferred e ∈ args → L.Evals r room e) :
    L.Holds room p (fun i => (r i).resolveOverload name args) fun c =>
      L.sub c.1 ∧ L.Sees p c.1.scope ∧ c.1.Suited c.2 :=
  (fittingOverloads name args.length).bind fun _ hsubs => firstAccepting hname hargs hsubs

theorem callPending (h : L.Bodies r room) {name : String} (hname : L.Fills r room name)
    (span : Span) (hargs : ∀ e, .deferred e ∈ args → L.Evals r room e) :
    L.Runs room p fun i => (r i).callPending name args span :=
  (resolveOverload hname hargs).bind fun _ hc => callSub h hc.1 hc.2.1 hc.2.2 span

theorem callValues (h : L.Bodies r room) {name : String} (hname : L.Fills r room name)
    (values : List Value) : L.Runs room p fun i => (r i).callValues name values := by
  refine callPending h hname _ fun e he => ?_
  obtain ⟨v, -, hv⟩ := List.mem_map.mp he
  exact nomatch hv

theorem callExpr (h : L.Bodies r room) {name : String} (hname : L.Fills r room name)
    (receiver : Option Value) {args : List Argument} (span : Span)
    (hargs : ∀ arg ∈ args, L.Evals r room arg.expr) :
    L.Runs room p fun i => (r i).callExpr name receiver args span := by
  refine (arguments hargs).bind fun pending hpending => callPending h hname span fun e he => ?_
  rcases List.mem_append.mp he with hfirst | hrest
  · cases receiver with
    | none => exact nomatch hfirst
    | some v => exact nomatch List.mem_singleton.mp hfirst
  · exact hpending e hrest

end Calls

section Expressions

variable {left right target index value : Expr}

theorem unaryExpr {op : UnaryOp} {operand : Expr} (hinvoke : ∀ name ∈ op.subName?, ∀ vs p,
      L.Runs room p fun i => (r i).invoke name vs) (h : L.Evals r room operand) :
    L.Runs room p fun i => (r i).unaryExpr op operand := by
  refine (h p none).bind fun v _ => ?_
  have hplain : L.Runs room p fun _ => op.apply v := of_local (op.apply_local v)
  cases v with
  | data d cells =>
    cases hsub : op.subName? with
    | none => exact hplain
    | some sub =>
      refine (Holds.hasSub sub).bind fun visible _ => .ite (fun _ => ?_) fun _ => hplain
      exact hinvoke sub hsub _ p
  | _ => exact hplain

theorem assignExpr (h : L.Evals r room right) :
    L.Runs room p fun i => (r i).assignExpr left right := by
  unfold Evaluator.assignExpr
  cases left.kind with
  | name name =>
    refine (Holds.cellOf name).bind fun cell _ => ?_
    refine (of_local (.read fun σ => (σ.cell cell).type)).bind fun t _ => ?_
    exact (h p _).bind fun v _ => of_local (.assign cell name v)
  | _ => exact .atSpan _ (fail rfl)

theorem swapExpr : L.Runs room p fun _ => Evaluator.swapExpr left right := by
  unfold Evaluator.swapExpr
  split
  · exact (Holds.cellOf _).bind fun a _ => (Holds.cellOf _).bind fun b _ =>
      of_local (.exchange a b _ _)
  · exact fail rfl

theorem logicExpr (op : BinaryOp) (decisive : Bool) (hleft : L.Evals r room left)
    (hright : L.Evals r room right) :
    L.Runs room p fun i => (r i).logicExpr op decisive left right := by
  refine (hleft p none).bind fun v _ => ?_
  cases v with
  | bool a =>
    refine .ite (fun _ => pure trivial) fun _ => (hright p none).bind fun w _ => ?_
    cases w with
    | bool b => exact pure trivial
    | _ => exact .atSpan _ (of_local (.failOn (fun _ => rfl) _))
  | _ => exact .atSpan _ (of_local (.failOn (fun _ => rfl) _))

theorem typeOperand (op : BinaryOp) (h : L.Evals r room right)
    (hparts : ∀ e ∈ right.kind.operands, L.Evals r room e) :
    L.Runs room p fun i => (r i).typeOperand op right := by
  unfold Evaluator.typeOperand
  cases hkind : right.kind with
  | type written =>
    rw [hkind] at hparts
    exact .atSpan _ (resolveType written hparts).runs
  | _ => exact (h p none).bind fun w _ =>
      .atSpan _ ((of_local (.typeOf w)).bind fun _ _ => fail rfl)

theorem isExpr (op : BinaryOp) (expected : Bool) (hleft : L.Evals r room left)
    (hright : L.Evals r room right) (hparts : ∀ e ∈ right.kind.operands, L.Evals r room e) :
    L.Runs room p fun i => (r i).isExpr op expected left right := by
  refine (hleft p none).bind fun v _ => (typeOperand op hright hparts).bind fun t _ => ?_
  exact (of_local (.read fun σ => t.admits σ v)).bind fun _ _ => pure trivial

theorem castExpr (hleft : L.Evals r room left) (hright : L.Evals r room right)
    (hparts : ∀ e ∈ right.kind.operands, L.Evals r room e) :
    L.Runs room p fun i => (r i).castExpr left right :=
  (hleft p none).bind fun v _ => (typeOperand .as hright hparts).bind fun t _ =>
    of_local (.cast t v)

theorem dotExpr (h : L.Bodies r room) (hnames : ∀ name ∈ right.kind.invoked, L.Fills r room name)
    (hleft : L.Evals r room left) (hright : L.Evals r room right)
    (hparts : ∀ e ∈ right.kind.operands, L.Evals r room e) :
    L.Runs room p fun i => (r i).dotExpr left right := by
  refine (hleft p none).bind fun v _ => ?_
  cases hkind : right.kind with
  | invoke name args =>
    rw [hkind] at hnames hparts
    exact callExpr h (hnames name (List.mem_singleton_self _)) (some v) right.span fun arg harg =>
      hparts _ (List.mem_map_of_mem harg)
  | name member => exact of_local (Evaluator.getMember_local v member)
  | _ => exact (hright p none).bind fun w _ =>
      .atSpan _ (of_local (.failOn (fun _ => rfl) w))

theorem valueExpr {op : BinaryOp} (hinvoke : ∀ name ∈ op.subName?, ∀ vs p,
      L.Runs room p fun i => (r i).invoke name vs)
    (hleft : L.Evals r room left) (hright : L.Evals r room right) :
    L.Runs room p fun i => (r i).valueExpr op left right := by
  refine (hleft p none).bind fun v _ => (hright p none).bind fun w _ => ?_
  have hplain : L.Runs room p fun _ => Evaluator.applyBinary op v w :=
    of_local (Evaluator.applyBinary_local op v w)
  cases v with
  | data d cells =>
    cases hsub : op.subName? with
    | none => exact hplain
    | some sub => exact hinvoke sub hsub _ p
  | _ => exact hplain

theorem binaryExpr (h : L.Bodies r room) {op : BinaryOp}
    (hinvoke : ∀ name ∈ op.subName?, ∀ vs p, L.Runs room p fun i => (r i).invoke name vs)
    (hnames : ∀ name ∈ right.kind.invoked, L.Fills r room name)
    (hleft : L.Evals r room left) (hright : L.Evals r room right)
    (hparts : ∀ e ∈ right.kind.operands, L.Evals r room e) :
    L.Runs room p fun i => (r i).binaryExpr op left right := by
  cases op with
  | assign => exact assignExpr hright
  | swap => exact swapExpr
  | and => exact logicExpr _ _ hleft hright
  | or => exact logicExpr _ _ hleft hright
  | is => exact isExpr _ _ hleft hright hparts
  | isNot => exact isExpr _ _ hleft hright hparts
  | as => exact castExpr hleft hright hparts
  | dot => exact dotExpr h hnames hleft hright hparts
  | _ => exact valueExpr hinvoke hleft hright

theorem setArrayElement (id : ArrayId) (i : Value) (h : L.Evals r room value) :
    L.Runs room p fun j => (r j).setArrayElement id i value := by
  refine (of_local (.position i)).bind fun n _ => ?_
  refine (of_local (.read fun σ => (σ.block id).element)).bind fun element _ => ?_
  refine (h p _).bind fun v _ => (of_local (.conform element v)).bind fun w _ => ?_
  refine (of_local (.read fun σ => (σ.block id).values.size)).bind fun size _ => ?_
  refine .ite (fun _ => ?_) fun _ => of_local (.atIndex i none)
  exact (of_local (.modifyStore _)).bind fun _ _ => pure trivial

theorem setFieldAt (d : DataDecl) (cells : List CellId) (i : Value) (h : L.Evals r room value) :
    L.Runs room p fun j => (r j).setFieldAt d cells i value := by
  refine (of_local (.position i)).bind fun n _ => ?_
  refine (of_local (.atIndex i _)).bind fun cell _ => ?_
  refine (of_local (.atIndex i _)).bind fun field _ => ?_
  refine (of_local (.read fun σ => (σ.cell cell).type)).bind fun t _ => ?_
  exact (h p _).bind fun v _ => of_local (.assign cell field.name v)

theorem setCharacter (text : String) (i : Value) (h : L.Evals r room value) :
    L.Runs room p fun j => (r j).setCharacter target text i value := by
  unfold Evaluator.setCharacter
  cases target.kind with
  | name name =>
    refine (of_local (.position i)).bind fun n _ => (h p none).bind fun v _ => ?_
    cases v with
    | char c =>
      refine .ite (fun _ => ?_) fun _ => of_local (.atIndex i none)
      refine (Holds.cellOf name).bind fun cell _ => ?_
      exact (of_local (.assign cell name _)).bind fun _ _ => pure trivial
    | _ => exact of_local (.failOn (fun _ => rfl) _)
  | _ => exact .atSpan _ (fail rfl)

theorem setIndexExpr (htarget : L.Evals r room target) (hindex : L.Evals r room index)
    (hvalue : L.Evals r room value) :
    L.Runs room p fun i => (r i).setIndexExpr target index value := by
  refine (htarget p none).bind fun t _ => (hindex p none).bind fun i _ => ?_
  cases t with
  | array id => exact setArrayElement id i hvalue
  | data d cells => exact setFieldAt d cells i hvalue
  | string s => exact setCharacter s i hvalue
  | _ => exact of_local (.failOn (fun _ => rfl) _)

theorem setMemberExpr (member : String) (htarget : L.Evals r room target)
    (hvalue : L.Evals r room value) :
    L.Runs room p fun i => (r i).setMemberExpr target member value := by
  refine (htarget p none).bind fun t _ => ?_
  cases t with
  | data d cells =>
    refine (of_local (Evaluator.fieldCell_local d cells member)).bind fun cell _ => ?_
    refine (of_local (.read fun σ => (σ.cell cell).type)).bind fun t _ => ?_
    exact (hvalue p _).bind fun v _ => of_local (.assign cell member v)
  | entry => exact .ite (fun _ => fail rfl) fun _ => fail rfl
  | _ => exact of_local (.failOn (fun _ => rfl) _)

theorem enumEntry (enum entry : String) : L.Runs room p fun _ => Evaluator.enumEntry enum entry :=
  (Holds.enum enum).bind fun found _ => (of_local (.require rfl found)).bind fun _ _ =>
    of_local (.require rfl _)

/-- A form of expression obeys a law if its parts do, the calls of the subs that it names, and the
types that it makes values of. -/
theorem exprKind (h : L.Bodies r room) {hint : Option Ty} (span : Span) {kind : ExprKind}
    (hcalls : ∀ name ∈ kind.calls, L.Fills r room name ∧
      ∀ vs p, L.Runs room p fun i => (r i).invoke name vs)
    (hmakes : ∀ t, kind.Makes L.named hint t → L.Makes r room t)
    (hparts : ∀ e ∈ kind.parts, L.Evals r room e) :
    L.Runs room p fun i => (r i).exprKind hint span kind := by
  cases kind with
  | empty | literal => exact pure trivial
  | name name =>
    exact (Holds.cellOf name).bind fun cell _ => of_local (.read fun σ => σ.read cell)
  | type written => exact (resolveType written hparts).bind fun t ht => (hmakes t ht).default p
  | array elements => exact arrayLiteral _ hparts
  | unary op operand =>
    refine unaryExpr (fun name hname => (hcalls name ?_).2) (List.forall_mem_singleton.mp hparts)
    exact Option.mem_toList.mpr hname
  | binary op left right =>
    have hright := fun e he => hparts e (List.mem_cons_of_mem _ he)
    refine binaryExpr h (fun name hname => (hcalls name ?_).2)
      (fun name hname => (hcalls name ?_).1) (hparts left List.mem_cons_self)
      (hright right List.mem_cons_self) fun e he => hright e (List.mem_cons_of_mem _ he)
    · exact List.mem_append_left _ (Option.mem_toList.mpr hname)
    · exact List.mem_append_right _ hname
  | getIndex target index =>
    obtain ⟨htarget, hindex⟩ := List.forall_mem_cons.mp hparts
    refine (htarget p none).bind fun t _ => ?_
    refine (List.forall_mem_singleton.mp hindex p none).bind fun i _ => ?_
    exact of_local (Evaluator.getIndex_local t i)
  | setIndex target index value =>
    obtain ⟨htarget, hrest⟩ := List.forall_mem_cons.mp hparts
    obtain ⟨hindex, hvalue⟩ := List.forall_mem_cons.mp hrest
    exact setIndexExpr htarget hindex (List.forall_mem_singleton.mp hvalue)
  | getMember target member =>
    refine (List.forall_mem_singleton.mp hparts p none).bind fun t _ => ?_
    exact of_local (Evaluator.getMember_local t member)
  | setMember target member value =>
    obtain ⟨htarget, hvalue⟩ := List.forall_mem_cons.mp hparts
    exact setMemberExpr member htarget (List.forall_mem_singleton.mp hvalue)
  | invoke name args =>
    exact callExpr h (hcalls name (List.mem_singleton_self _)).1 none span fun arg harg =>
      hparts _ (List.mem_map_of_mem harg)
  | instantiate target elements =>
    have helements : ∀ e ∈ elements, L.Evals r room e :=
      fun e he => hparts e (List.mem_append_right _ he)
    cases target with
    | some written =>
      refine (resolveType written fun e he => hparts e (List.mem_append_left _ he)).bind
        fun t ht => instantiate (hmakes t ht) helements
    | none =>
      cases hint with
      | some t => exact instantiate (hmakes t rfl) helements
      | none => exact fail rfl
  | enumEntry enum entry => exact enumEntry enum entry

theorem expr (h : L.Bodies r room) {hint : Option Ty} {e : Expr}
    (hcalls : ∀ name ∈ e.kind.calls, L.Fills r room name ∧
      ∀ vs p, L.Runs room p fun i => (r i).invoke name vs)
    (hmakes : ∀ t, e.kind.Makes L.named hint t → L.Makes r room t)
    (hparts : ∀ e' ∈ e.kind.parts, L.Evals r room e') :
    L.Runs room p fun i => (r i).expr hint e :=
  .atSpan _ (exprKind h _ hcalls hmakes hparts)

end Expressions

end Law

end BasicScript
