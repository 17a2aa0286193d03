import BasicScript.Proofs.Stores.Fields

/-! # Statements that keep fields apart

Declarations bind values that are separate, the entries of enums included, and
what a signal carries out of a statement is separate as well.
-/

namespace BasicScript

namespace Flow

variable {flow : Flow}

theorem separate_normal : Flow.normal.Separate := fun _ h => nomatch h

theorem separate_signal {signal : Signal} (h : signal.Separate) :
    (Flow.signal signal).Separate := fun _ hsignal => by cases hsignal; exact h

/-- A loop passes on no signal but the one that ended its body. -/
theorem Separate.loopStep (h : flow.Separate) (label : Option String) :
    (flow.loopStep label).Separate := by
  intro signal hsignal
  cases signal with
  | yield v =>
    refine h _ ?_
    unfold Flow.loopStep at hsignal
    split at hsignal
    · exact nomatch hsignal
    · split at hsignal <;> exact nomatch hsignal
    · split at hsignal <;> exact nomatch hsignal
    · cases hsignal
      rfl
  | _ => trivial

/-- What a `do` block makes of the end of its body carries no other value. -/
theorem Separate.afterBlock (h : flow.Separate) (label : Option String) :
    (flow.afterBlock label).Separate := by
  unfold Flow.afterBlock
  split
  · split
    · exact separate_normal
    · exact separate_signal trivial
  · split
    · exact separate_normal
    · exact separate_signal trivial
  · exact h

end Flow

namespace Evaluator.Separates

open Run.Separates (pure fail failOn failBind readBind require ite)

variable {r : Evaluator}

theorem bind (name : String) (t : Ty) {v : Value} (constant : Bool) (hv : v.Separate) :
    (Evaluator.bind name t v constant).Separates fun _ => True := by
  have htype : (Evaluator.bindingType v t).Separates fun _ => True := by
    unfold Evaluator.bindingType
    split
    · exact readBind fun _ => require fun _ _ => trivial
    · exact pure trivial
  exact htype.bind fun type _ => (Run.Separates.conform type hv).bind fun w hw =>
    (Run.Separates.declareVariable name (c := ⟨type, w, constant⟩) hw).bind
      fun _ _ => pure trivial

theorem bindEach (h : r.Separates) (constant : Bool) (names : List (String × TypeExpr))
    {vs : List Value} (hvs : ∀ v ∈ vs, v.Separate) :
    (r.bindEach constant names vs).Separates fun _ => True := by
  induction names generalizing vs with
  | nil => exact pure trivial
  | cons n names ih =>
    cases vs with
    | nil => exact pure trivial
    | cons v vs =>
      rw [List.forall_mem_cons] at hvs
      exact (h.resolveType _).bind fun t _ => (bind _ _ _ hvs.1).bind fun _ _ => ih hvs.2

theorem bindAll (h : r.Separates) (names : List (String × TypeExpr)) {vs : List Value}
    (constant : Bool) (hvs : ∀ v ∈ vs, v.Separate) :
    (r.bindAll names vs constant).Separates fun _ => True :=
  ite (failBind _) (h.bindEach constant names hvs)

theorem declareVariable (h : r.Separates) (name : String) (written : TypeExpr) (init : Expr)
    (constant : Bool) :
    (r.declareVariable name written init constant).Separates fun _ => True := by
  refine (h.resolveType written).bind fun t _ => (h.eval _ init).bind fun v hv => ?_
  refine ite (ite (.atSpan _ (fail _)) ?_) (bind _ _ _ hv)
  exact (h.default t).bind fun w hw => bind _ _ _ hw

theorem declareSub (h : r.Separates) (d : SubDef) :
    (r.declareSub d).Separates fun _ => True := by
  have hreturns : (r.returnType d.returns).Separates fun _ => True := by
    unfold Evaluator.returnType
    split
    · exact pure trivial
    · exact h.resolveType _
  have hnative : ∀ signature returns,
      (r.requireNative signature returns).Separates fun _ => True := fun _ _ =>
    (require (P := fun _ => True) fun _ _ => trivial).bind fun _ _ => ite (fail _) (pure trivial)
  have hdeclare : ∀ (sub : Sub) (signature : String),
      (Run.declare .sub signature (·.takesSub d.name signature) (·.addSub sub)).Separates
        fun _ => True := fun sub _ =>
    .declare (g := fun sc => { sc with subs := sc.subs ++ [sub] }) fun _ _ hd => .inl hd
  refine (Run.Separates.mapM (Q := fun _ => True) d.params fun p _ =>
    (h.resolveType p.type).bind fun _ _ => pure trivial).bind fun params _ => hreturns.bind
      fun returns _ => ite ((hnative _ _).bind fun _ _ => ?_) ?_
  · exact readBind fun _ => hdeclare _ _
  · exact readBind fun _ => hdeclare _ _

theorem declareData (h : r.Separates) (name : String) (fields : List FieldDef) :
    (r.declareData name fields).Separates fun _ => True := by
  refine (Run.Separates.mapM (Q := fun _ => True) fields fun f _ =>
    (h.resolveType f.type).bind fun _ _ => pure trivial).bind fun built _ => readBind fun path => ?_
  exact .declare (g := fun sc => { sc with datas := ⟨name, built, path⟩ :: sc.datas })
    fun _ _ hd => .inl hd

theorem declareAlias (h : r.Separates) (name : String) (written : TypeExpr) :
    (r.declareAlias name written).Separates fun _ => True :=
  (h.resolveType written).bind fun t _ =>
    .declare (g := fun sc => { sc with aliases := (name, t) :: sc.aliases })
      fun _ _ hd => .inl hd

theorem basicEntry (h : r.Separates) (t : Ty) (ordinal : Nat) (elements : List Expr) :
    (r.basicEntry t ordinal elements).Separates Value.Separate := by
  have hordinal : (r.ordinalValue t ordinal).Separates Value.Separate := by
    unfold Evaluator.ordinalValue
    split
    · exact pure trivial
    · split
      · exact ite (pure trivial) (h.default t)
      · exact h.default t
  have helement : (r.entryElement t ordinal elements).Separates Value.Separate := by
    cases elements with
    | nil => exact hordinal
    | cons e _ => exact h.eval _ e
  refine helement.bind fun v hv => ?_
  split
  · exact ite (fail _) (pure hv)
  · exact .conform _ hv

theorem entryValues {value : Nat → List Expr → Run Value}
    (h : ∀ ordinal elements, (value ordinal elements).Separates Value.Separate) (ordinal : Nat)
    (entries : List EntryDef) : (Evaluator.entryValues value ordinal entries).Separates
      fun es => ∀ e ∈ es, e.2.Separate := by
  induction entries generalizing ordinal with
  | nil => exact pure (List.forall_mem_nil _)
  | cons e rest ih =>
    exact (h _ _).bind fun v hv => (ih _).bind fun es hes =>
      pure (List.forall_mem_cons.mpr ⟨hv, hes⟩)

theorem declareEnum (h : r.Separates) (name : String) (kind : EnumKind)
    (entries : List EntryDef) :
    (r.declareEnum name kind entries).Separates fun _ => True := by
  have hentries : (r.enumEntries kind entries).Separates fun p => ∀ e ∈ p.2, e.2.Separate := by
    cases kind with
    | basic written =>
      exact (h.resolveType written).bind fun t _ =>
        (entryValues (h.basicEntry t) 0 entries).bind fun _ hes => pure hes
    | data data =>
      exact (h.resolveType _).bind fun t _ =>
        (entryValues (fun _ => h.instantiate t) 0 entries).bind fun _ hes => pure hes
  refine hentries.bind fun p hes => ?_
  obtain ⟨type, built⟩ := p
  refine .declare (g := fun sc => { sc with enums := ⟨name, type, built⟩ :: sc.enums }) ?_
  rintro sc d hd
  rcases List.mem_cons.mp hd with rfl | hd
  · exact .inr hes
  · exact .inl hd

theorem block (h : r.Separates) (body : List Stmt) :
    (r.block body).Separates Flow.Separate := by
  induction body with
  | nil => exact pure Flow.separate_normal
  | cons stmt rest ih =>
    refine (h.exec stmt).bind fun flow hflow => ?_
    cases flow with
    | normal => exact ih
    | signal signal => exact pure hflow

theorem scopedBlock (h : r.Separates) (body : List Stmt) :
    (r.scopedBlock body).Separates Flow.Separate := .inScope (h.block body)

theorem test (h : r.Separates) (e : Expr) : (r.test e).Separates fun _ => True := by
  refine (h.eval _ e).bind fun v _ => ?_
  split
  · exact pure trivial
  · exact .atSpan _ (readBind fun _ => fail _)

theorem branches (h : r.Separates) (otherwise : Option (List Stmt)) (bs : List Branch) :
    (r.branches otherwise bs).Separates Flow.Separate := by
  induction bs with
  | nil =>
    cases otherwise with
    | none => exact pure Flow.separate_normal
    | some body => exact h.scopedBlock body
  | cons b rest ih =>
    obtain ⟨test, body⟩ := b
    exact (h.test test).bind fun _ _ => ite (h.scopedBlock body) ih

theorem caseMatches (h : r.Separates) (subject : Value) (test : CaseTest) :
    (r.caseMatches subject test).Separates fun _ => True := by
  cases test with
  | values values =>
    show (r.anyEqual subject values).Separates _
    induction values with
    | nil => exact pure trivial
    | cons e rest ih =>
      exact (h.eval _ e).bind fun _ _ => (Run.Separates.ending _).bind fun _ _ =>
        readBind fun _ => ite (pure trivial) ih
  | type written inverted =>
    exact (h.resolveType written).bind fun _ _ => .read fun _ _ => trivial
  | otherwise => exact pure trivial

theorem cases (h : r.Separates) (label : Option String) (subject : Value) (cs : List Case) :
    (r.cases label subject cs).Separates Flow.Separate := by
  induction cs with
  | nil => exact pure Flow.separate_normal
  | cons case rest ih =>
    obtain ⟨test, body⟩ := case
    refine (h.caseMatches subject test).bind fun _ _ => ite ?_ ih
    refine (h.scopedBlock body).bind fun flow hflow => ?_
    split
    · exact pure Flow.separate_normal
    · exact ih
    · next signal hpass => exact pure (Evaluator.Sound.caseStep_pass hpass ▸ hflow)

theorem whileStep (h : r.Separates) (label : Option String) (test : Expr) (body : List Stmt) :
    (r.whileStep label test body).Separates LoopStep.Separate :=
  (h.test test).bind fun _ _ => ite
    ((h.scopedBlock body).bind fun _ hflow => pure (hflow.loopStep label))
    (pure fun _ hsignal => nomatch hsignal)

theorem untilStep (h : r.Separates) (label : Option String) (test : Expr) (body : List Stmt) :
    (r.untilStep label test body).Separates LoopStep.Separate := by
  refine (h.scopedBlock body).bind fun flow hflow => ?_
  split
  · refine (h.test test).bind fun _ _ => pure fun signal hsignal => ?_
    split at hsignal <;> exact nomatch hsignal
  · exact pure (hflow.loopStep label)

theorem countLoop (h : r.Separates) (label : Option String) (name : String) (type : TypeExpr)
    (start limit : Expr) (step : Option Expr) (body : List Stmt) :
    (r.countLoop label name type start limit step body).Separates Flow.Separate := by
  have hstep : ∀ test increment,
      (r.countStep label test increment body).Separates LoopStep.Separate := by
    intro test increment
    refine (h.whileStep label test body).bind fun step hstep => ?_
    split
    · exact (h.eval _ _).bind fun _ _ => pure fun _ hsignal => nomatch hsignal
    · exact pure hstep
  refine .inScope ((h.resolveType type).bind fun t _ => (h.eval _ start).bind fun v hv => ?_)
  exact (bind name t false hv).bind fun _ _ => .loop (hstep _ _) _

theorem eachStep (h : r.Separates) (label : Option String) (name : String) (t : Ty)
    (body : List Stmt) {v : Value} (hv : v.Separate) :
    (r.eachStep label name t body v).Separates LoopStep.Separate :=
  Run.Separates.bind (.inScope ((bind name t false hv).bind fun _ _ => h.block body))
    fun _ hflow => pure (hflow.loopStep label)

theorem eachOfStep (h : r.Separates) (label : Option String) (names : List (String × TypeExpr))
    (body : List Stmt) (v : Value) :
    (r.eachOfStep label names body v).Separates LoopStep.Separate :=
  (Run.Separates.elementsOf v).bind fun _ hvs => Run.Separates.bind
    (.inScope ((h.bindAll names false hvs).bind fun _ _ => h.block body))
      fun _ hflow => pure (hflow.loopStep label)

theorem stmtKind (h : r.Separates) (kind : StmtKind) :
    (r.stmtKind kind).Separates Flow.Separate := by
  have hdone : (Pure.pure Flow.normal : Run Flow).Separates Flow.Separate :=
    pure Flow.separate_normal
  cases kind with
  | none => exact hdone
  | expression e => exact (h.eval _ e).bind fun _ _ => hdone
  | declare name type init constant => exact (h.declareVariable _ _ _ _).bind fun _ _ => hdone
  | declareEach names init constant =>
    exact (h.eval _ init).bind fun v _ => (Run.Separates.elementsOf v).bind fun _ hvs =>
      (h.bindAll _ _ hvs).bind fun _ _ => hdone
  | block body => exact h.scopedBlock body
  | doBlock label body =>
    exact (h.scopedBlock body).bind fun _ hflow => pure (hflow.afterBlock label)
  | ifElse bs otherwise => exact h.branches otherwise bs
  | switch label subject cs => exact (h.eval _ subject).bind fun _ _ => h.cases _ _ _
  | whileLoop label test body => exact .loop (h.whileStep _ _ _) _
  | untilLoop label test body => exact .loop (h.untilStep _ _ _) _
  | forCount label name type start limit step body => exact h.countLoop _ _ _ _ _ _ _
  | forEach label name type iterable body =>
    exact (h.resolveType _).bind fun t _ => (h.iterationValues _).bind fun _ hvs =>
      .forValues hvs fun v hv => h.eachStep label name t body hv
  | forEachOf label names iterable body =>
    exact (h.iterationValues _).bind fun _ hvs =>
      .forValues hvs fun v _ => h.eachOfStep label names body v
  | data name fields => exact (h.declareData _ _).bind fun _ _ => hdone
  | sub d => exact (h.declareSub d).bind fun _ _ => hdone
  | breakTo label => exact pure (Flow.separate_signal trivial)
  | nextTo label => exact pure (Flow.separate_signal trivial)
  | leave => exact pure (Flow.separate_signal trivial)
  | yield value =>
    exact readBind fun _ => (h.eval _ value).bind fun _ hv => pure (Flow.separate_signal hv)
  | «alias» name type => exact (h.declareAlias _ _).bind fun _ _ => hdone
  | enum name kind entries => exact (h.declareEnum _ _ _).bind fun _ _ => hdone

end Evaluator.Separates

end BasicScript
