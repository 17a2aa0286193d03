import BasicScript.Eval.Stmt
import BasicScript.Proofs.Types.Sound

/-! # Types of composites, declarations and statements

Over an evaluator that keeps the types, the rules for composites, declarations
and statements keep them as well. A default has the type that it stands for,
and the cells of an instance are the fields of its declaration.
-/

namespace BasicScript

/-- Evaluators that keep the types; what they give for a type has it, and leaves the tables as
they are. -/
structure Evaluator.Sound (r : Evaluator) : Prop where
  eval : ∀ hint e s, (r.eval hint e).Sound s .value
  exec : ∀ stmt s, (r.exec stmt).Sound s .flow
  default : ∀ t s, (r.default t).Sound s (.valueOf t)
  framed : ∀ t s, Frame False s ((r.default t).state s)
  invoke : ∀ name args s, (∀ v ∈ args, s.Holds v) → (r.invoke name args).Sound s .value

namespace Evaluator.Sound

open Run.Sound (pure fail failOn readBind requireBind ite typed)

variable {r : Evaluator} {s : State}

theorem block (h : r.Sound) (body : List Stmt) : (r.block body).Sound s .flow := by
  induction body generalizing s with
  | nil => exact pure Claim.flow_normal
  | cons stmt rest ih =>
    refine (h.exec stmt s).bind fun flow t _ hflow => ?_
    cases flow with
    | normal => exact ih
    | signal signal => exact pure hflow

theorem scopedBlock (h : r.Sound) (body : List Stmt) : (r.scopedBlock body).Sound s .flow :=
  .inScope Claim.flow_stable (h.block body)

theorem arraySize (h : r.Sound) (size : Expr) : (r.arraySize size).Sound s .nothing := by
  refine (h.eval none size s).bind fun v t _ _ => ?_
  split
  · exact pure trivial
  · exact failOn _ _

theorem resolveType (h : r.Sound) (written : TypeExpr) :
    (r.resolveType written).Sound s .nothing := by
  fun_induction Evaluator.resolveType r written generalizing s with
  | case1 => exact pure trivial
  | case2 p => exact pure trivial
  | case3 element ih => exact ih.bind fun _ _ _ _ => pure trivial
  | case4 element size ih =>
    exact ih.bind fun _ _ _ _ => (h.arraySize size).bind fun _ _ _ _ => pure trivial
  | case5 element ih => exact ih.bind fun _ _ _ _ => pure trivial
  | case6 name => exact readBind (.require fun _ _ => trivial)

theorem suppliedValue (h : r.Sound) (t : Ty) (element : Option Expr) :
    (r.suppliedValue t element).Sound s .value := by
  cases element with
  | none => exact pure trivial
  | some e => exact h.eval _ _ s

theorem fieldValue (h : r.Sound) (scope : ScopePath) (field : Field) (element : Option Expr) :
    (r.fieldValue scope field element).Sound s .value := by
  refine (h.suppliedValue _ _).bind fun supplied t _ hsupplied => ite (fun _ => ?_) fun _ => ?_
  · split
    · exact .inLiveScope Claim.value_stable (h.eval _ _ _)
    · exact (h.default _ t).weaken fun _ _ _ hv => hv.holds
  · exact pure hsupplied

/-- The cells that are made for fields are those fields. -/
theorem fieldCells (h : r.Sound) (scope : ScopePath) (fields : List Field)
    (elements : List Expr) : (r.fieldCells scope fields elements).Sound s fun cells t =>
      List.Forall₂ t.store.IsField fields cells := by
  induction fields generalizing s elements with
  | nil => exact pure .nil
  | cons field fields ih =>
    refine (h.fieldValue scope field _).bind fun v t _ hv => ?_
    refine (Run.Sound.conform hv).bind fun w u _ hw => ?_
    refine (Run.Sound.newCell (c := ⟨field.type, w, field.constant⟩) hw).bind fun id u' _ hid => ?_
    refine (ih elements.tail).bind fun cells t' hg hcells => pure (.cons ?_ hcells)
    have hfield : u'.store.IsField field id := by
      refine ⟨hid.1, ?_, ?_, ?_⟩
      · rw [hid.2]
      · rw [hid.2]
      · rw [Store.read, hid.2]
        exact hw.fits.present
    exact hfield.grows hg.store

theorem instantiateData (h : r.Sound) (name : String) (elements : List Expr) :
    (r.instantiateData name elements).Sound s (.valueOf (.data name)) := by
  refine readBind (requireBind fun decl hdecl => ?_)
  obtain ⟨i, sc, hsc, hmem, hname⟩ := Environment.data?_some hdecl
  have hbuild : (do return Value.data decl (← r.fieldCells decl.scope decl.fields elements) :
      Run Value).Sound s (.valueOf (.data name)) :=
    (h.fieldCells _ _ _).bind fun cells t hg hcells =>
      pure ⟨⟨State.Declares.grows ⟨i, sc, hsc, hmem⟩ hg, hcells⟩, hname⟩
  exact ite (fun _ => .failBind _) fun _ => hbuild

/-- An array of values of one type has that element type. -/
theorem newArray {t element : Ty} (ht : t.element? = some element) {vs : List Value}
    (hvs : ∀ v ∈ vs, s.Has element v) (hsize : ∀ n, t.size? = some n → vs.length = n) :
    (Run.newArray element vs).Sound s (.valueOf t) := by
  refine (Run.Sound.newArray hvs).weaken fun v u _ hv => ?_
  obtain ⟨id, rfl, hholds, hblock⟩ := hv
  refine ⟨hholds, (Store.fits_array ht id).mpr ⟨fun n hn => ?_, .inr ?_⟩⟩
  · simp only [Store.elements, hblock, hsize n hn]
  · rw [hblock]

theorem newArray_value {element : Ty} {vs : List Value} (hvs : ∀ v ∈ vs, s.Has element v) :
    (Run.newArray element vs).Sound s .value :=
  (Run.Sound.newArray hvs).weaken fun v u _ hv => by
    obtain ⟨id, rfl, hholds, -⟩ := hv
    exact hholds

theorem defaults (h : r.Sound) (n : Nat) (element : Ty) :
    ((List.replicate n element).mapM r.default).Sound s fun vs t =>
      vs.length = n ∧ ∀ v ∈ vs, t.Has element v := by
  refine (Run.Sound.mapM (Claim.valueOf_stable element) _ fun t ht u _ => ?_).weaken
    fun vs u _ hvs => ⟨hvs.1.trans List.length_replicate, hvs.2⟩
  rw [List.eq_of_mem_replicate ht]
  exact h.default element u

theorem instantiateArray (h : r.Sound) (element : Ty) (size : Option Nat)
    (elements : List Expr) : (r.instantiateArray element size elements).Sound s .value := by
  refine ite (fun _ => .failBind _) fun _ => ?_
  refine (Run.Sound.mapM (Claim.valueOf_stable element) elements fun e _ t _ => ?_).bind
    fun given t _ hgiven => (h.defaults _ element).bind fun filler u hg hfiller => ?_
  · exact (h.eval _ e t).bind fun v u _ hv => .conform hv
  · refine newArray_value fun v hv => (List.mem_append.mp hv).elim (fun hv => ?_) (hfiller.2 v)
    exact (hgiven.2 v hv).grows hg

theorem instantiate (h : r.Sound) (t : Ty) (elements : List Expr) :
    (r.instantiate t elements).Sound s .value := by
  unfold Evaluator.instantiate
  split
  · exact (h.instantiateData _ _).weaken fun _ _ _ hv => hv.holds
  · exact h.instantiateArray _ _ _
  · exact h.instantiateArray _ _ _
  · exact fail _

theorem arrayLiteral (h : r.Sound) (hint : Option Ty) (elements : List Expr) :
    (r.arrayLiteral hint elements).Sound s .value := by
  have helement : ∀ (e : Expr) (t : State), (do
      let v ← r.eval hint e
      return (v, ← Run.require .cannotInfer (← Run.typeOf v)) : Run (Value × Ty)).Sound t
        fun p u => u.Holds p.1 := by
    intro e t
    refine (h.eval hint e t).bind fun v u _ hv => Run.Sound.typeOfBind fun ty => ?_
    exact requireBind fun _ _ => pure hv
  refine (Run.Sound.mapM (fun _ _ _ hg hp => hp.grows hg) elements fun e _ t _ =>
    helement e t).bind fun typed t _ htyped => ?_
  refine (Run.Sound.mapM (Claim.valueOf_stable _) typed fun p hp u hg => ?_).bind
    fun values u _ hvalues => newArray_value hvalues.2
  exact .conform ((htyped.2 p hp).grows hg)

/-- What stands for a value of a type has that type. -/
theorem defaultValue (h : r.Sound) (t : Ty) : (r.defaultValue t).Sound s (.valueOf t) := by
  unfold Evaluator.defaultValue
  split
  · exact pure ⟨trivial, rfl⟩
  · exact pure ⟨trivial, rfl⟩
  · exact pure ⟨trivial, rfl⟩
  · exact pure ⟨trivial, rfl⟩
  · exact pure ⟨trivial, rfl⟩
  · split
    · next k hk =>
      refine pure ⟨trivial, Primitive.admits_number ?_⟩
      rw [Number.kind_ofInt, hk]
    · exact fail _
  · exact fail _
  · next element size =>
    refine (h.defaults (size.getD 0) element).bind fun vs t _ hvs => ?_
    refine newArray rfl hvs.2 fun n hn => hvs.1.trans ?_
    rw [show size = some n from hn, Option.getD_some]
  · next element =>
    exact newArray rfl (fun _ hv => nomatch hv) fun _ hn => nomatch hn
  · exact h.instantiateData _ _
  · refine typed fun hs => readBind (requireBind fun decl hdecl => .require fun v hv => ?_)
    exact hs.entry_has hdecl (List.mem_of_mem_head? hv)

theorem iterationValues (h : r.Sound) (iterable : Expr) :
    (r.iterationValues iterable).Sound s .values := by
  unfold Evaluator.iterationValues
  split
  · refine (h.resolveType _).bind fun t u _ _ => ?_
    split
    · refine typed fun hu => readBind (requireBind fun decl hdecl => pure fun v hv => ?_)
      exact (hu.entry_has hdecl hv).holds
    · exact (h.eval _ _ u).bind fun _ _ _ _ => .elementsOf
  · exact (h.eval _ _ s).bind fun _ _ _ _ => .elementsOf

theorem test (h : r.Sound) (e : Expr) : (r.test e).Sound s .nothing := by
  refine (h.eval _ e s).bind fun v t _ _ => ?_
  split
  · exact pure trivial
  · exact .atSpan _ (.typeOfBind fun _ => fail _)

theorem branches (h : r.Sound) (otherwise : Option (List Stmt)) (bs : List Branch) :
    (r.branches otherwise bs).Sound s .flow := by
  induction bs generalizing s with
  | nil =>
    cases otherwise with
    | none => exact pure Claim.flow_normal
    | some body => exact h.scopedBlock body
  | cons b rest ih =>
    obtain ⟨test, body⟩ := b
    exact (h.test test).bind fun _ _ _ _ => ite (fun _ => h.scopedBlock body) fun _ => ih

theorem anyEqual (h : r.Sound) (subject : Value) (values : List Expr) :
    (r.anyEqual subject values).Sound s .nothing := by
  induction values generalizing s with
  | nil => exact pure trivial
  | cons e rest ih =>
    exact (h.eval _ e s).bind fun v t _ _ =>
      .endingBind (readBind (ite (fun _ => pure trivial) fun _ => ih))

theorem caseMatches (h : r.Sound) (subject : Value) (test : CaseTest) :
    (r.caseMatches subject test).Sound s .nothing := by
  cases test with
  | values values => exact h.anyEqual subject values
  | type written inverted => exact (h.resolveType written).bind fun _ _ _ _ => .read trivial
  | otherwise => exact pure trivial

/-- A switch passes on no signal but the one that ended a case. -/
theorem caseStep_pass {label : Option String} {flow : Flow} {signal : Signal}
    (h : flow.caseStep label = .pass signal) : flow = .signal signal := by
  unfold Flow.caseStep at h
  split at h
  · exact nomatch h
  · split at h
    · exact nomatch h
    · cases h
      rfl
  · split at h
    · exact nomatch h
    · cases h
      rfl
  · cases h
    rfl

theorem cases (h : r.Sound) (label : Option String) (subject : Value) (cs : List Case) :
    (r.cases label subject cs).Sound s .flow := by
  induction cs generalizing s with
  | nil => exact pure Claim.flow_normal
  | cons case rest ih =>
    obtain ⟨test, body⟩ := case
    refine (h.caseMatches subject test).bind fun _ t _ _ => ite (fun _ => ?_) fun _ => ih
    refine (h.scopedBlock body).bind fun flow u _ hflow => ?_
    split
    · exact pure Claim.flow_normal
    · exact ih
    · next signal hpass => exact pure (caseStep_pass hpass ▸ hflow)

theorem whileStep (h : r.Sound) (label : Option String) (test : Expr) (body : List Stmt) :
    (r.whileStep label test body).Sound s .loopStep := by
  refine (h.test test).bind fun _ t _ _ => ite (fun _ => ?_) fun _ => ?_
  · exact (h.scopedBlock body).bind fun _ _ _ hflow => pure (Claim.flow_loopStep hflow label)
  · exact pure fun _ hsignal => nomatch hsignal

theorem untilStep (h : r.Sound) (label : Option String) (test : Expr) (body : List Stmt) :
    (r.untilStep label test body).Sound s .loopStep := by
  refine (h.scopedBlock body).bind fun flow t _ hflow => ?_
  split
  · refine (h.test test).bind fun _ _ _ _ => pure fun signal hsignal => ?_
    split at hsignal <;> exact nomatch hsignal
  · exact pure (Claim.flow_loopStep hflow label)

theorem countStep (h : r.Sound) (label : Option String) (test increment : Expr)
    (body : List Stmt) : (r.countStep label test increment body).Sound s .loopStep := by
  refine (h.whileStep label test body).bind fun step t _ hstep => ?_
  split
  · exact (h.eval _ _ t).bind fun _ _ _ _ => pure fun _ hsignal => nomatch hsignal
  · exact pure hstep

theorem bindingType (v : Value) (t : Ty) :
    (Evaluator.bindingType v t).Sound s .nothing := by
  unfold Evaluator.bindingType
  split
  · exact .typeOfBind fun _ => .require fun _ _ => trivial
  · exact pure trivial

theorem bind (name : String) (t : Ty) {v : Value} (constant : Bool) (hv : s.Holds v) :
    (Evaluator.bind name t v constant).Sound s .nothing := by
  refine (bindingType v t).bind fun type u hg _ => ?_
  refine (Run.Sound.conform (hv.grows hg)).bind fun w u' _ hw => ?_
  exact (Run.Sound.declareVariable (c := ⟨type, w, constant⟩) fun _ => .inr hw).bind
    fun _ _ _ _ => pure trivial

theorem bindEach (h : r.Sound) (constant : Bool) (names : List (String × TypeExpr))
    {vs : List Value} (hvs : ∀ v ∈ vs, s.Holds v) :
    (r.bindEach constant names vs).Sound s .nothing := by
  induction names generalizing s vs with
  | nil => exact pure trivial
  | cons n names ih =>
    cases vs with
    | nil => exact pure trivial
    | cons v vs =>
      rw [List.forall_mem_cons] at hvs
      refine (h.resolveType _).bind fun t u hg _ => ?_
      refine (bind _ _ _ (hvs.1.grows hg)).bind fun _ u' hg' _ => ih fun w hw => ?_
      exact (hvs.2 w hw).grows (hg.trans hg')

theorem bindAll (h : r.Sound) (names : List (String × TypeExpr)) {vs : List Value}
    (constant : Bool) (hvs : ∀ v ∈ vs, s.Holds v) :
    (r.bindAll names vs constant).Sound s .nothing :=
  ite (fun _ => .failBind _) fun _ => h.bindEach constant names hvs

theorem declareVariable (h : r.Sound) (name : String) (written : TypeExpr) (init : Expr)
    (constant : Bool) : (r.declareVariable name written init constant).Sound s .nothing := by
  refine (h.resolveType written).bind fun t u _ _ => (h.eval _ init u).bind fun v u' _ hv => ?_
  refine ite (fun _ => ite (fun _ => .atSpan _ (fail _)) fun _ => ?_) fun _ => bind _ _ _ hv
  exact (h.default t u').bind fun w u'' _ hw => bind _ _ _ hw.holds

theorem parameters (h : r.Sound) (params : List Param) :
    (r.parameters params).Sound s .nothing :=
  (Run.Sound.mapM (Q := .nothing) Claim.nothing_stable params fun p _ _ _ =>
    (h.resolveType p.type).bind fun _ _ _ _ => pure trivial).weaken fun _ _ _ _ => trivial

theorem returnType (h : r.Sound) (written : TypeExpr) :
    (r.returnType written).Sound s .nothing := by
  unfold Evaluator.returnType
  split
  · exact pure trivial
  · exact h.resolveType _

theorem requireNative (r : Evaluator) (signature : String) (returns : Ty) :
    (r.requireNative signature returns).Sound s .nothing :=
  requireBind fun _ _ => ite (fun _ => fail _) fun _ => pure trivial

theorem declareSub (h : r.Sound) (d : SubDef) : (r.declareSub d).Sound s .nothing := by
  refine (h.parameters _).bind fun params _ _ _ => (h.returnType _).bind fun returns u _ _ => ?_
  have hdeclare : ∀ (sub : Sub) (signature : String) (u : State),
      (Run.declare .sub signature (·.takesSub d.name signature) (·.addSub sub)).Sound u
        .nothing := fun sub signature u =>
    .declare (f := fun sc => { sc with subs := sc.subs ++ [sub] })
      (fun sc => { Scope.Extends.refl sc with subs := List.prefix_append _ _ })
      (fun _ => rfl) fun _ _ hd => .inl hd
  refine ite (fun _ => (requireNative r _ _).bind fun _ u' _ _ => ?_) fun _ => ?_
  · exact readBind (hdeclare _ _ u')
  · exact readBind (hdeclare _ _ u)

theorem declareData (h : r.Sound) (name : String) (fields : List FieldDef) :
    (r.declareData name fields).Sound s .nothing := by
  refine (Run.Sound.mapM (Q := .nothing) Claim.nothing_stable fields fun f _ t _ =>
    (h.resolveType f.type).bind fun _ _ _ _ => pure trivial).bind fun fields t _ _ => readBind ?_
  exact .declare (f := fun sc => { sc with datas := ⟨name, fields, t.env.current⟩ :: sc.datas })
    (fun sc => { Scope.Extends.refl sc with datas := List.suffix_cons _ _ })
    (fun _ => rfl) fun _ _ hd => .inl hd

theorem declareAlias (h : r.Sound) (name : String) (written : TypeExpr) :
    (r.declareAlias name written).Sound s .nothing := by
  refine (h.resolveType written).bind fun t u _ _ => ?_
  exact .declare (f := fun sc => { sc with aliases := (name, t) :: sc.aliases })
    (fun sc => { Scope.Extends.refl sc with aliases := List.suffix_cons _ _ })
    (fun _ => rfl) fun _ _ hd => .inl hd

theorem ordinalValue (h : r.Sound) (t : Ty) (ordinal : Nat) :
    (r.ordinalValue t ordinal).Sound s .value := by
  have hdefault : (r.default t).Sound s .value :=
    (h.default t s).weaken fun _ _ _ hv => hv.holds
  unfold Evaluator.ordinalValue
  split
  · exact pure trivial
  · split
    · exact ite (fun _ => pure trivial) fun _ => hdefault
    · exact hdefault

theorem entryElement (h : r.Sound) (t : Ty) (ordinal : Nat) (elements : List Expr) :
    (r.entryElement t ordinal elements).Sound s .value := by
  cases elements with
  | nil => exact h.ordinalValue _ _
  | cons e _ => exact h.eval _ e s

theorem basicEntry (h : r.Sound) (t : Ty) (ordinal : Nat) (elements : List Expr) :
    (r.basicEntry t ordinal elements).Sound s .value := by
  refine (h.entryElement t ordinal elements).bind fun v u _ hv => ?_
  split
  · exact ite (fun _ => fail _) fun _ => pure hv
  · exact (Run.Sound.conform hv).weaken fun _ _ _ hw => hw.holds

theorem entryValues {value : Nat → List Expr → Run Value}
    (h : ∀ ordinal elements t, (value ordinal elements).Sound t .value) (ordinal : Nat)
    (entries : List EntryDef) : (Evaluator.entryValues value ordinal entries).Sound s
      fun es t => ∀ e ∈ es, t.Holds e.2 := by
  induction entries generalizing s ordinal with
  | nil => exact pure fun _ he => nomatch he
  | cons e rest ih =>
    refine (h _ _ s).bind fun v t _ hv => (ih _).bind fun es u hg hes => ?_
    exact pure (List.forall_mem_cons.mpr ⟨hv.grows hg, hes⟩)

theorem enumEntries (h : r.Sound) (kind : EnumKind) (entries : List EntryDef) :
    (r.enumEntries kind entries).Sound s fun p t => ∀ e ∈ p.2, t.Holds e.2 := by
  cases kind with
  | basic written =>
    refine (h.resolveType written).bind fun t u _ _ => ?_
    exact (entryValues (fun _ _ _ => h.basicEntry t _ _) 0 entries).bind fun _ _ _ hes => pure hes
  | data data =>
    refine (h.resolveType _).bind fun t u _ _ => ?_
    exact (entryValues (fun _ _ _ => h.instantiate t _) 0 entries).bind fun _ _ _ hes => pure hes

theorem declareEnum (h : r.Sound) (name : String) (kind : EnumKind) (entries : List EntryDef) :
    (r.declareEnum name kind entries).Sound s .nothing := by
  refine (h.enumEntries kind entries).bind fun p t _ hes => ?_
  obtain ⟨type, built⟩ := p
  refine .declare (f := fun sc => { sc with enums := ⟨name, type, built⟩ :: sc.enums })
    (fun sc => { Scope.Extends.refl sc with enums := List.suffix_cons _ _ }) (fun _ => rfl) ?_
  rintro sc d hd
  rcases List.mem_cons.mp hd with rfl | hd
  · exact .inr hes
  · exact .inl hd

theorem countLoop (h : r.Sound) (label : Option String) (name : String) (type : TypeExpr)
    (start limit : Expr) (step : Option Expr) (body : List Stmt) :
    (r.countLoop label name type start limit step body).Sound s .flow := by
  refine .inScope Claim.flow_stable ?_
  refine (h.resolveType type).bind fun t u _ _ => (h.eval _ start u).bind fun v u' _ hv => ?_
  exact (bind name t false hv).bind fun _ _ _ _ => .loop _ fun _ _ => h.countStep _ _ _ _

theorem eachStep (h : r.Sound) (label : Option String) (name : String) (t : Ty)
    (body : List Stmt) {v : Value} (hv : s.Holds v) :
    (r.eachStep label name t body v).Sound s .loopStep := by
  have hpush : State.Holds { s with env := s.env.push } v :=
    hv.grows ⟨.refl _, .push Scope.Extends.refl _ _⟩
  refine Run.Sound.bind (.inScope Claim.flow_stable ?_) fun flow u _ hflow =>
    pure (Claim.flow_loopStep hflow label)
  exact (bind name t false hpush).bind fun _ _ _ _ => h.block body

theorem eachOfStep (h : r.Sound) (label : Option String) (names : List (String × TypeExpr))
    (body : List Stmt) (v : Value) : (r.eachOfStep label names body v).Sound s .loopStep := by
  refine Run.Sound.bind .elementsOf fun vs t _ hvs => ?_
  refine Run.Sound.bind (.inScope Claim.flow_stable ?_) fun flow u _ hflow =>
    pure (Claim.flow_loopStep hflow label)
  refine (h.bindAll names false fun w hw => ?_).bind fun _ _ _ _ => h.block body
  exact (hvs w hw).grows ⟨.refl _, .push Scope.Extends.refl _ _⟩

/-- What a `do` block makes of the end of its body carries no other value. -/
theorem flow_afterBlock {flow : Flow} {t : State} (h : Claim.flow flow t)
    (label : Option String) : Claim.flow (flow.afterBlock label) t := by
  unfold Flow.afterBlock
  split
  · split
    · exact Claim.flow_normal
    · exact Claim.flow_signal trivial
  · split
    · exact Claim.flow_normal
    · exact Claim.flow_signal trivial
  · exact h

theorem stmtKind (h : r.Sound) (kind : StmtKind) : (r.stmtKind kind).Sound s .flow := by
  have hdone : ∀ t : State, (Pure.pure Flow.normal : Run Flow).Sound t .flow :=
    fun t => pure Claim.flow_normal
  cases kind with
  | none => exact hdone s
  | expression e => exact (h.eval _ e s).bind fun _ _ _ _ => hdone _
  | declare name type init constant =>
    exact (h.declareVariable _ _ _ _).bind fun _ _ _ _ => hdone _
  | declareEach names init constant =>
    exact (h.eval _ init s).bind fun _ _ _ _ => Run.Sound.elementsOf.bind fun _ _ _ hvs =>
      (h.bindAll _ _ hvs).bind fun _ _ _ _ => hdone _
  | block body => exact h.scopedBlock body
  | doBlock label body =>
    exact (h.scopedBlock body).bind fun _ _ _ hflow => pure (flow_afterBlock hflow label)
  | ifElse bs otherwise => exact h.branches otherwise bs
  | switch label subject cs => exact (h.eval _ subject s).bind fun _ _ _ _ => h.cases _ _ _
  | whileLoop label test body => exact .loop _ fun _ _ => h.whileStep _ _ _
  | untilLoop label test body => exact .loop _ fun _ _ => h.untilStep _ _ _
  | forCount label name type start limit step body => exact h.countLoop _ _ _ _ _ _ _
  | forEach label name type iterable body =>
    refine (h.resolveType _).bind fun t u _ _ => (h.iterationValues _).bind fun vs u' _ hvs => ?_
    exact .forValues hvs fun v _ _ hv => h.eachStep label name t body hv
  | forEachOf label names iterable body =>
    refine (h.iterationValues _).bind fun vs u _ hvs => ?_
    exact .forValues hvs fun v _ _ _ => h.eachOfStep label names body v
  | data name fields => exact (h.declareData _ _).bind fun _ _ _ _ => hdone _
  | sub d => exact (h.declareSub d).bind fun _ _ _ _ => hdone _
  | breakTo label => exact pure (Claim.flow_signal trivial)
  | nextTo label => exact pure (Claim.flow_signal trivial)
  | leave => exact pure (Claim.flow_signal trivial)
  | yield value =>
    exact readBind ((h.eval _ value s).bind fun _ _ _ hv => pure (Claim.flow_signal hv))
  | «alias» name type => exact (h.declareAlias _ _).bind fun _ _ _ _ => hdone _
  | enum name kind entries => exact (h.declareEnum _ _ _).bind fun _ _ _ _ => hdone _

theorem stmt (h : r.Sound) (stmt : Stmt) : (r.stmt stmt).Sound s .flow :=
  .traced _ _ (h.stmtKind stmt.kind)

end Evaluator.Sound

end BasicScript
