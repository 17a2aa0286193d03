import BasicScript.Proofs.Stores.Statement
import BasicScript.Proofs.Types.Storage

/-! # Expressions and programs that keep fields apart

Arguments, results and operands are separate values, and natives give values
that lead nowhere. So the fields of each composite have cells of their own in
every state that programs reach.
-/

namespace BasicScript

/-- Natives keep values separate, over a caller that does. -/
def Library.Separates (l : Library) : Prop :=
  ∀ signature native, l.lookup signature = some native → ∀ call : Caller,
    (∀ name args, (∀ v ∈ args, v.Separate) → (call name args).Separates Value.Separate) →
      ∀ args, (∀ v ∈ args, v.Separate) → (native.function call args).Separates Value.Separate

/-- The value of an argument is separate. -/
def Pending.Separate : Pending → Prop
  | .ready v => v.Separate
  | .deferred _ => True

theorem Pending.separate_ready {vs : List Value} (hvs : ∀ v ∈ vs, v.Separate) :
    ∀ arg ∈ vs.map Pending.ready, arg.Separate := by
  intro arg harg
  obtain ⟨v, hv, rfl⟩ := List.mem_map.mp harg
  exact hvs v hv

namespace Evaluator.Separates

open Run.Separates (pure fail failOn failBind readBind require ite)

variable {r : Evaluator}

theorem arguments (h : r.Separates) (args : List Argument) :
    (r.arguments args).Separates fun pending => ∀ arg ∈ pending, arg.Separate := by
  have hargument : ∀ arg, (r.argument arg).Separates fun pending => ∀ a ∈ pending, a.Separate := by
    rintro ⟨spread, e⟩
    cases spread with
    | true =>
      exact (h.eval _ e).bind fun v _ => Run.Separates.bind (.atSpan _ (.elementsOf v))
        fun vs hvs => pure (Pending.separate_ready hvs)
    | false =>
      refine ite (pure (List.forall_mem_singleton.mpr trivial)) ?_
      exact (h.eval _ e).bind fun v hv => pure (List.forall_mem_singleton.mpr hv)
  induction args with
  | nil => exact pure (List.forall_mem_nil _)
  | cons arg rest ih =>
    exact (hargument arg).bind fun here hhere => ih.bind fun later hlater =>
      pure fun a ha => (List.mem_append.mp ha).elim (hhere a) (hlater a)

theorem argumentValue (h : r.Separates) (t : Ty) {arg : Pending} (harg : arg.Separate) :
    (r.argumentValue t arg).Separates Value.Separate := by
  cases arg with
  | ready v => exact pure harg
  | deferred e => exact h.eval _ e

theorem bindFixed (h : r.Separates) (ps : List Parameter) {args : List Pending}
    (hargs : ∀ arg ∈ args, arg.Separate) : (r.bindFixed ps args).Separates
      fun slots => ∀ slot ∈ slots, ∀ v ∈ slot, v.Separate := by
  induction ps generalizing args with
  | nil => exact pure (List.forall_mem_nil _)
  | cons p ps ih =>
    have hslot : (r.bindArgument p args.head?).Separates fun slot => ∀ v ∈ slot, v.Separate := by
      cases hhead : args.head? with
      | none => exact pure fun _ hv => nomatch hv
      | some arg =>
        refine ite (pure fun _ hv => nomatch hv) ?_
        refine (h.argumentValue _ (hargs arg (List.mem_of_mem_head? hhead))).bind fun v hv => ?_
        exact (Run.Separates.conform _ hv).bind fun w hw => pure fun u hu => by cases hu; exact hw
    exact hslot.bind fun slot hslot => (ih fun a ha => hargs a (List.mem_of_mem_tail ha)).bind
      fun slots hslots => pure (List.forall_mem_cons.mpr ⟨hslot, hslots⟩)

theorem bindArguments (h : r.Separates) (sub : Sub) {args : List Pending}
    (hargs : ∀ arg ∈ args, arg.Separate) : (r.bindArguments sub args).Separates
      fun slots => ∀ slot ∈ slots, ∀ v ∈ slot, v.Separate := by
  refine (h.bindFixed _ hargs).bind fun slots hslots => ?_
  split
  · exact pure hslots
  · refine (Run.Separates.mapM _ fun arg harg => (h.argumentValue _ (hargs arg
      (List.mem_of_mem_drop harg))).bind fun v hv => .conform _ hv).bind fun tail htail => ?_
    refine (Run.Separates.newArray _ htail).bind fun v hv => pure fun slot hslot => ?_
    rcases List.mem_append.mp hslot with hslot | hslot
    · exact hslots slot hslot
    · rw [List.mem_singleton.mp hslot]
      exact fun w hw => by cases hw; exact hv

theorem fillDefaults (h : r.Separates) (sub : Sub) (ps : List Parameter)
    {slots : List (Option Value)} (hslots : ∀ slot ∈ slots, ∀ v ∈ slot, v.Separate) :
    (r.fillDefaults sub ps slots).Separates fun vs => ∀ v ∈ vs, v.Separate := by
  have hfilled : ∀ (p : Parameter) (slot : Option Value), (∀ v ∈ slot, v.Separate) →
      (r.filled sub p slot).Separates Value.Separate := by
    intro p slot hslot
    cases slot with
    | some v => exact pure (hslot v rfl)
    | none =>
      refine Run.Separates.bind ?_ fun v hv => .conform _ hv
      unfold Evaluator.parameterDefault
      split
      · exact .inLiveScope _ (h.eval _ _)
      · exact h.default _
  induction ps generalizing slots with
  | nil => exact pure (List.forall_mem_nil _)
  | cons p ps ih =>
    cases slots with
    | nil => exact pure (List.forall_mem_nil _)
    | cons slot slots =>
      rw [List.forall_mem_cons] at hslots
      exact (hfilled p slot hslots.1).bind fun v hv => (ih hslots.2).bind fun vs hvs =>
        pure (List.forall_mem_cons.mpr ⟨hv, hvs⟩)

theorem resolveOverload (h : r.Separates) (name : String) {args : List Pending}
    (hargs : ∀ arg ∈ args, arg.Separate) :
    (r.resolveOverload name args).Separates fun c => ∀ v ∈ c.2, v.Separate := by
  have hfitting : (Evaluator.fittingOverloads name args.length).Separates fun _ => True :=
    readBind fun _ => ite (failBind _) (ite (failBind _) (pure trivial))
  refine hfitting.bind fun subs _ => ?_
  induction subs with
  | nil => exact fail _
  | cons sub rest ih =>
    refine (h.bindArguments sub hargs).either (fun slots hslots => ?_) fun e => ?_
    · exact (h.fillDefaults sub _ hslots).bind fun vs hvs => pure hvs
    · exact ite ih (.stop e)

theorem declareParameters (ps : List Parameter) {vs : List Value}
    (hvs : ∀ v ∈ vs, v.Separate) :
    (Evaluator.declareParameters ps vs).Separates fun _ => True := by
  induction ps generalizing vs with
  | nil => exact pure trivial
  | cons p ps ih =>
    cases vs with
    | nil => exact pure trivial
    | cons v vs =>
      rw [List.forall_mem_cons] at hvs
      exact (Run.Separates.declareVariable _ (c := ⟨p.type, v, false⟩) hvs.1).bind
        fun _ _ => ih hvs.2

theorem runBody (h : r.Separates) (sub : Sub) {bound : List Value}
    (hbound : ∀ v ∈ bound, v.Separate) : (r.runBody sub bound).Separates Value.Separate := by
  have hinitial : (r.initialResult sub.returns).Separates Value.Separate := by
    refine (h.default _).either (fun v hv => pure hv) fun e => ?_
    split
    · exact pure trivial
    · exact .stop e
  refine .inLiveScope _ ((declareParameters _ hbound).bind fun _ _ => hinitial.bind
    fun initial hv => ?_)
  refine (Run.Separates.declareVariable _ (c := ⟨sub.returns, initial, false⟩) hv).bind
    fun slot _ => (Run.Separates.returning _ (h.block _)).bind fun flow hflow => ?_
  have hslot : (do
      let v ← Run.read fun s => s.store.read slot
      if v.isMissing then Run.fail (.noYield sub.name) else Pure.pure v : Run Value).Separates
        Value.Separate := (Run.Separates.readCell slot).bind fun v hv => ite (fail _) (pure hv)
  unfold Evaluator.bodyResult
  split
  · exact hslot
  · exact hslot
  · exact .fit _ (hflow _ rfl)
  · exact fail _

theorem callPending (h : r.Separates) (hl : r.library.Separates) (name : String)
    {args : List Pending} (hargs : ∀ arg ∈ args, arg.Separate) (span : Span) :
    (r.callPending name args span).Separates Value.Separate := by
  refine (h.resolveOverload name hargs).bind fun c hbound => .asCall _ (ite ?_ (h.runBody _ hbound))
  unfold Evaluator.callNative
  split
  · exact fail _
  · next native hlookup =>
    refine (hl _ _ hlookup r.invoke h.invoke c.2 hbound).bind fun v hv => ?_
    exact readBind fun _ => ite (pure hv) (failOn _ v)

theorem callValues (h : r.Separates) (hl : r.library.Separates) (name : String)
    {values : List Value} (hvalues : ∀ v ∈ values, v.Separate) :
    (r.callValues name values).Separates Value.Separate :=
  h.callPending hl name (Pending.separate_ready hvalues) _

theorem callExpr (h : r.Separates) (hl : r.library.Separates) (name : String)
    {receiver : Option Value} (hreceiver : ∀ v ∈ receiver, v.Separate) (args : List Argument)
    (span : Span) : (r.callExpr name receiver args span).Separates Value.Separate := by
  refine (h.arguments args).bind fun pending hpending => h.callPending hl name ?_ span
  intro arg harg
  rcases List.mem_append.mp harg with harg | harg
  · obtain ⟨v, hv, rfl⟩ := Option.map_eq_some_iff.mp (Option.mem_toList.mp harg)
    exact hreceiver v hv
  · exact hpending arg harg

theorem applyBinary (op : BinaryOp) (v w : Value) :
    (Evaluator.applyBinary op v w).Separates Value.Separate := by
  refine (Run.Separates.ending _).bind fun _ _ =>
    Run.Separates.bind (P := fun result => ∀ u, result = .ok u → u.Separate)
      (.read fun s _ u hu => ?_) fun result hresult => ?_
  · -- the result is accounted for without any declaration
    have hholds : State.Holds { s with env := ⟨#[], []⟩ } u := Evaluator.Sound.apply_scalar hu
    refine Value.separate_of_holds (Store.Holds.grows hholds (.refl _) fun d hd => ?_)
    obtain ⟨i, sc, hsc, -⟩ := hd
    exact nomatch (Array.getElem?_eq_some_iff.mp hsc).1
  · split
    · exact pure (hresult _ rfl)
    · exact fail _

theorem applyUnary (op : UnaryOp) {v : Value} (hv : v.Separate) :
    (op.apply v).Separates Value.Separate := by
  have hlength : ∀ n, (UnaryOp.lengthValue n).Separates Value.Separate :=
    fun n => ite (pure trivial) (fail _)
  unfold UnaryOp.apply
  split
  · exact pure trivial
  · exact pure trivial
  · exact hlength _
  · exact readBind fun _ => hlength _
  · exact .textBind fun _ => pure trivial
  · exact pure hv
  · refine Run.Separates.bind (.read fun s hs => ?_) fun vs hvs => .newArray _ hvs
    intro w hw
    obtain ⟨id, -, rfl⟩ := List.mem_map.mp hw
    exact hs.store.read id
  · exact failOn _ _

theorem unaryExpr (h : r.Separates) (op : UnaryOp) (operand : Expr) :
    (r.unaryExpr op operand).Separates Value.Separate := by
  refine (h.eval _ operand).bind fun v hv => ?_
  split
  · exact readBind fun _ => ite (h.invoke _ _ (List.forall_mem_singleton.mpr hv))
      (applyUnary op hv)
  · exact applyUnary op hv

theorem assignExpr (h : r.Separates) (left right : Expr) :
    (r.assignExpr left right).Separates Value.Separate := by
  unfold Evaluator.assignExpr
  split
  · exact (Run.Separates.cellOf _).bind fun id _ => readBind fun _ =>
      (h.eval _ right).bind fun v hv => .assign id _ hv
  · exact .atSpan _ (fail _)

theorem logicExpr (h : r.Separates) (op : BinaryOp) (decisive : Bool) (left right : Expr) :
    (r.logicExpr op decisive left right).Separates Value.Separate := by
  refine (h.eval _ left).bind fun v _ => ?_
  split
  · refine ite (pure trivial) ((h.eval _ right).bind fun w _ => ?_)
    split
    · exact pure trivial
    · exact .atSpan _ (failOn _ _)
  · exact .atSpan _ (failOn _ _)

theorem typeOperand (h : r.Separates) (op : BinaryOp) (right : Expr) :
    (r.typeOperand op right).Separates fun _ => True := by
  unfold Evaluator.typeOperand
  split
  · exact .atSpan _ (h.resolveType _)
  · exact (h.eval _ right).bind fun _ _ => .atSpan _ (readBind fun _ => fail _)

theorem castExpr (h : r.Separates) (left right : Expr) :
    (r.castExpr left right).Separates Value.Separate := by
  refine (h.eval _ left).bind fun v hv => (h.typeOperand _ _).bind fun t _ => .done fun s hs => ?_
  rcases Run.cast_cases t v s with ⟨-, w, σ, hcast, hrun⟩ | ⟨-, -, hrun⟩ | ⟨-, hrun⟩
  · obtain ⟨hσ, hw⟩ := Store.Carries.cast hcast hs.store (List.forall_mem_singleton.mpr hv)
    exact .inl ⟨w, _, hrun, hs.withStore hσ, List.forall_mem_singleton.mp hw⟩
  · exact .inr ⟨_, hrun⟩
  · exact .inr ⟨_, hrun⟩

theorem getMember {target : Value} (member : String) (ht : target.Separate) :
    (Evaluator.getMember target member).Separates Value.Separate := by
  unfold Evaluator.getMember
  split
  · exact (require (P := fun _ => True) fun _ _ => trivial).bind fun id _ => .readCell id
  · split
    · exact pure trivial
    · exact pure trivial
    · exact pure ht
    · exact fail _
  · exact failOn _ _

theorem dotExpr (h : r.Separates) (hl : r.library.Separates) (left right : Expr) :
    (r.dotExpr left right).Separates Value.Separate := by
  refine (h.eval _ left).bind fun target ht => ?_
  split
  · exact h.callExpr hl _ (fun v hv => Option.some.inj hv ▸ ht) _ _
  · exact getMember _ ht
  · exact (h.eval _ right).bind fun _ _ => .atSpan _ (failOn _ _)

theorem binaryExpr (h : r.Separates) (hl : r.library.Separates) (op : BinaryOp)
    (left right : Expr) : (r.binaryExpr op left right).Separates Value.Separate := by
  have his : ∀ op expected, (r.isExpr op expected left right).Separates Value.Separate :=
    fun _ _ => (h.eval _ left).bind fun _ _ => (h.typeOperand _ _).bind fun _ _ =>
      readBind fun _ => pure trivial
  unfold Evaluator.binaryExpr
  split
  · exact h.assignExpr _ _
  · unfold Evaluator.swapExpr
    split
    · exact (Run.Separates.cellOf _).bind fun a _ => (Run.Separates.cellOf _).bind fun b _ =>
        .exchange a b _ _
    · exact fail _
  · exact h.logicExpr _ _ _ _
  · exact h.logicExpr _ _ _ _
  · exact his _ _
  · exact his _ _
  · exact h.castExpr _ _
  · exact h.dotExpr hl _ _
  · refine (h.eval _ left).bind fun v hv => (h.eval _ right).bind fun w hw => ?_
    split
    · exact h.invoke _ _ (List.forall_mem_cons.mpr ⟨hv, List.forall_mem_singleton.mpr hw⟩)
    · exact applyBinary _ _ _

theorem getIndex (target index : Value) :
    (Evaluator.getIndex target index).Separates Value.Separate := by
  unfold Evaluator.getIndex
  split
  · refine (Run.Separates.position index).bind fun i _ => .atIndex fun v hv => ?_
    obtain ⟨c, -, rfl⟩ := Option.map_eq_some_iff.mp hv
    trivial
  · next id =>
    refine (Run.Separates.position index).bind fun i _ => Run.Separates.bind
      (P := fun found => ∀ v, found = some v → v.Separate) (.read fun s hs v hv => ?_)
        fun found hfound => .atIndex hfound
    exact hs.store.elements id v (Array.mem_toList_iff.mpr (Array.mem_of_getElem? hv))
  · refine (Run.Separates.position index).bind fun i _ => Run.Separates.bind
      (P := fun found => ∀ v, found = some v → v.Separate) (.read fun s hs v hv => ?_)
        fun found hfound => .atIndex hfound
    obtain ⟨id, -, rfl⟩ := Option.map_eq_some_iff.mp hv
    exact hs.store.read id
  · exact failOn _ _

theorem setIndexExpr (h : r.Separates) (target index value : Expr) :
    (r.setIndexExpr target index value).Separates Value.Separate := by
  refine (h.eval _ target).bind fun t _ => (h.eval _ index).bind fun i _ => ?_
  split
  · next id _ =>
    refine (Run.Separates.position i).bind fun place _ => readBind fun element =>
      (h.eval _ value).bind fun v hv => (Run.Separates.conform element hv).bind fun w hw =>
        readBind fun _ => ite ?_ (.atIndex fun _ h => nomatch h)
    exact (Run.Separates.modifyStore fun σ hσ => hσ.setElement id place hw).bind
      fun _ _ => pure hw
  · exact (Run.Separates.position i).bind fun place _ => Run.Separates.bind
      (P := fun _ => True) (.atIndex fun _ _ => trivial) fun cell _ => Run.Separates.bind
        (P := fun _ => True) (.atIndex fun _ _ => trivial) fun field _ => readBind fun _ =>
          (h.eval _ value).bind fun v hv => .assign cell _ hv
  · unfold Evaluator.setCharacter
    split
    · refine (Run.Separates.position i).bind fun place _ => (h.eval _ value).bind fun v _ => ?_
      split
      · refine ite ((Run.Separates.cellOf _).bind fun id _ => ?_) (.atIndex fun _ h => nomatch h)
        exact Run.Separates.bind (.assign _ _ trivial) fun _ _ => pure trivial
      · exact failOn _ _
    · exact .atSpan _ (fail _)
  · exact failOn _ _

theorem setMemberExpr (h : r.Separates) (target : Expr) (member : String) (value : Expr) :
    (r.setMemberExpr target member value).Separates Value.Separate := by
  refine (h.eval _ target).bind fun t _ => ?_
  split
  · exact (require (P := fun _ => True) fun _ _ => trivial).bind fun id _ => readBind fun _ =>
      (h.eval _ value).bind fun v hv => .assign id _ hv
  · exact ite (fail _) (fail _)
  · exact failOn _ _

theorem enumEntry (enum entry : String) :
    (Evaluator.enumEntry enum entry).Separates Value.Separate := by
  refine Run.Separates.bind (P := fun found => ∀ d, found = some d → ∀ v ∈ d.values, v.Separate)
    (.read fun s hs d hd => hs.entry hd) fun found hfound => ?_
  exact (require hfound).bind fun d hd => require fun v hv => hd v (List.mem_of_find?_eq_some hv)

theorem exprKind (h : r.Separates) (hl : r.library.Separates) (hint : Option Ty) (span : Span)
    (kind : ExprKind) : (r.exprKind hint span kind).Separates Value.Separate := by
  unfold Evaluator.exprKind
  split
  · exact pure trivial
  · next l => exact pure (by cases l <;> trivial)
  · exact (Run.Separates.cellOf _).bind fun id _ => .readCell id
  · exact (h.resolveType _).bind fun t _ => h.default t
  · exact h.arrayLiteral _ _
  · exact h.unaryExpr _ _
  · exact h.binaryExpr hl _ _ _
  · exact (h.eval _ _).bind fun _ _ => (h.eval _ _).bind fun _ _ => getIndex _ _
  · exact h.setIndexExpr _ _ _
  · exact (h.eval _ _).bind fun _ hv => getMember _ hv
  · exact h.setMemberExpr _ _ _
  · exact h.callExpr hl _ (fun _ hv => by cases hv) _ _
  · exact (h.resolveType _).bind fun t _ => h.instantiate t _
  · split
    · exact h.instantiate _ _
    · exact fail _
  · exact enumEntry _ _

theorem loadCore (h : r.Separates) : r.loadCore.Separates fun _ => True := by
  intro s hs
  cases hcore : s.core with
  | pending =>
    have heq : r.loadCore s =
        (do let _ ← r.block coreDeclarations : Run Unit) { s with core := .loaded } := by
      simp only [Evaluator.loadCore, hcore]
    have hblock : (do let _ ← r.block coreDeclarations : Run Unit).Separates fun _ => True :=
      (h.block coreDeclarations).bind fun _ _ => pure trivial
    unfold Run.state
    rw [heq]
    exact hblock { s with core := .loaded } (hs.congr rfl rfl)
  | _ =>
    have heq : r.loadCore s = .ok () s := by simp only [Evaluator.loadCore, hcore]
    rw [Run.state_ok heq]
    exact ⟨hs, fun _ _ _ => trivial⟩

theorem run (h : r.Separates) (program : List Stmt) :
    (r.run program).Separates fun _ => True := by
  refine h.loadCore.bind fun _ _ => (h.block program).bind fun flow _ => ?_
  split
  · exact pure trivial
  · exact pure trivial
  · exact pure trivial
  · exact fail _

end Evaluator.Separates

/-- Natives of the standard library give values that lead nowhere. -/
theorem Library.standard_separates : standard.Separates := by
  intro signature native hlookup call _ args _
  obtain ⟨f, hf, hplain⟩ := standard_plain hlookup
  rw [hf]
  refine .done fun s hs => ?_
  rcases hplain args s with ⟨v, console, hx, hv⟩ | ⟨e, hx⟩
  · exact .inl ⟨v, _, hx, hs.congr rfl rfl, Value.separate_of_plain hv⟩
  · exact .inr ⟨e, hx⟩

theorem Evaluator.interrupted_separates (halt : State → Bool) (n : Nat) :
    (interrupted .standard halt n).Separates := by
  have hhalted : ∀ {α : Type} {x : Run α} {Q : α → Prop}, x.Separates Q →
      (Run.unlessHalted halt x).Separates Q := by
    intro α x Q h
    refine .ofEach fun s _ => ?_
    by_cases hhalt : halt s = true
    · exact ⟨Run.exhausted, if_pos hhalt, .exhausted⟩
    · exact ⟨x, if_neg hhalt, h⟩
  induction n with
  | zero =>
    exact ⟨fun _ _ => .exhausted, fun _ => .exhausted, fun _ => .exhausted,
      fun _ _ _ => .exhausted, interrupted_precedes_self Library.standard_framed halt 0⟩
  | succ n ih =>
    have hl : (interrupted .standard halt n).library.Separates := by
      rw [interrupted_library]
      exact Library.standard_separates
    exact
      { eval := fun hint e => hhalted (.atSpan _ (ih.exprKind hl hint e.span e.kind))
        exec := fun stmt => hhalted (.traced _ _ (ih.stmtKind stmt.kind))
        default := fun t => hhalted (ih.defaultValue t)
        invoke := fun name args hargs => hhalted (ih.callValues hl name hargs)
        grows := interrupted_precedes_self Library.standard_framed halt (n + 1) }

theorem Evaluator.ofFuel_separates (fuel : Nat) : (ofFuel .standard fuel).Separates := by
  rw [← interrupted_never]
  exact interrupted_separates _ fuel

/-- In every state that programs reach, the fields of each composite have cells of their own. -/
theorem Reaches.separate {settings : Settings} {s : State}
    (h : Reaches .standard (.initial settings) s) : s.Separate := by
  induction h with
  | refl => exact .initial settings
  | run program halt fuel _ ih =>
    exact ((Evaluator.interrupted_separates halt fuel).run program _ ih).1

theorem State.Amid.separate {settings : Settings} {t : State} (h : t.Amid settings) :
    t.Separate := by
  obtain ⟨s, hs, hstore, hscopes⟩ := h.reached
  exact hs.separate.congr hstore hscopes

end BasicScript
