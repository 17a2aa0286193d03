import BasicScript.Proofs.Frame.Moment

/-! # Exits of statements

A statement passes on a signal only if a statement inside it sends the signal
and no construct in between takes it. This holds of every state, and by the
structure of statements: each construct is asked only for what it takes.
-/

namespace BasicScript

/-- How control can leave a statement. -/
inductive Exit where
  | breakTo (label : Option String)
  | nextTo (label : Option String)
  | leave
  | yield
  deriving DecidableEq, Repr

/-- The exit that a signal takes. -/
def Signal.exit : Signal → Exit
  | .breakTo label => .breakTo label
  | .nextTo label => .nextTo label
  | .leave => .leave
  | .yield _ => .yield

namespace StmtKind

/-- Statements of the blocks that belong to a form of statement; the body of a sub does not. -/
def parts : StmtKind → List Stmt
  | .block body | .doBlock _ body | .whileLoop _ _ body | .untilLoop _ _ body
  | .forCount _ _ _ _ _ _ body | .forEach _ _ _ _ body | .forEachOf _ _ _ body => body
  | .ifElse branches otherwise =>
    (branches.flatMap fun | .mk _ body => body) ++ otherwise.getD []
  | .switch _ _ cases => cases.flatMap fun | .mk _ body => body
  | _ => []

/-- The exit that a form of statement is in itself. -/
def exit? : StmtKind → Option Exit
  | .breakTo label => some (.breakTo label)
  | .nextTo label => some (.nextTo label)
  | .leave => some .leave
  | .yield _ => some .yield
  | _ => Option.none

/-- Label of a loop, a `do` block or a switch. -/
def label? : StmtKind → Option String
  | .doBlock label _ | .switch label _ _ | .whileLoop label _ _ | .untilLoop label _ _
  | .forCount label _ _ _ _ _ _ | .forEach label _ _ _ _ | .forEachOf label _ _ _ => label
  | _ => Option.none

/-- Loops. -/
def isLoop : StmtKind → Bool
  | .whileLoop .. | .untilLoop .. | .forCount .. | .forEach .. | .forEachOf .. => true
  | _ => false

/-- The `do` blocks. -/
def isDo : StmtKind → Bool
  | .doBlock .. => true
  | _ => false

/-- Switches. -/
def isSwitch : StmtKind → Bool
  | .switch .. => true
  | _ => false

/-- Whether an exit from a block of a form of statement is aimed at the form. Without a label,
`break` is aimed at loops and `do` blocks, and `next` at switches as well. -/
def takes (kind : StmtKind) : Exit → Bool
  | .breakTo Option.none => kind.isLoop || kind.isDo
  | .nextTo Option.none => kind.isLoop || kind.isDo || kind.isSwitch
  | .breakTo (some label) | .nextTo (some label) => kind.label? == some label
  | .leave | .yield => false

end StmtKind

/-- A statement contains an exit that no construct inside it takes; bodies of subs do not count. -/
inductive Stmt.Sends : Stmt → Exit → Prop where
  | self {kind : StmtKind} {span : Span} {exit : Exit} :
      kind.exit? = some exit → Sends (.mk kind span) exit
  | inside {kind : StmtKind} {span : Span} {exit : Exit} {s : Stmt} :
      s ∈ kind.parts → Sends s exit → kind.takes exit = false → Sends (.mk kind span) exit

/-- The flow is normal, or takes one of some exits. -/
def Flow.Within (exits : Exit → Prop) (flow : Flow) : Prop :=
  ∀ signal, flow = .signal signal → exits signal.exit

/-- The step passes on at most some exits. -/
def LoopStep.Within (exits : Exit → Prop) (step : LoopStep) : Prop :=
  ∀ signal, step = .pass signal → exits signal.exit

/-- The step passes on at most some exits. -/
def CaseStep.Within (exits : Exit → Prop) (step : CaseStep) : Prop :=
  ∀ signal, step = .pass signal → exits signal.exit

namespace Flow

variable {flow : Flow} {kind : StmtKind} {exits : Exit → Prop}

theorem within_normal : Flow.normal.Within exits := fun _ h => nomatch h

theorem within_signal {signal : Signal} (h : exits signal.exit) :
    (Flow.signal signal).Within exits := by
  rintro _ ⟨⟩
  exact h

theorem loopStep_pass {signal : Signal} (h : flow.loopStep kind.label? = .pass signal) :
    flow = .signal signal ∧ kind.takes signal.exit = false := by
  rcases flow with _ | ((_ | label) | (_ | label) | _ | v)
  case signal.breakTo.some | signal.nextTo.some =>
    by_cases hlabel : kind.label? = some label
    · simp [loopStep, Signal.targets, hlabel] at h
    · simp only [loopStep, Signal.targets, beq_iff_eq, hlabel, if_false, LoopStep.pass.injEq] at h
      subst h
      exact ⟨rfl, beq_eq_false_iff_ne.mpr hlabel⟩
  case signal.leave | signal.yield =>
    cases h
    exact ⟨rfl, rfl⟩
  all_goals exact nomatch h

theorem afterBlock_signal {signal : Signal} (h : flow.afterBlock kind.label? = .signal signal) :
    flow = .signal signal ∧ kind.takes signal.exit = false := by
  rcases flow with _ | ((_ | label) | (_ | label) | _ | v)
  case signal.breakTo.some | signal.nextTo.some =>
    by_cases hlabel : kind.label? = some label
    · simp [afterBlock, Signal.targets, hlabel] at h
    · simp only [afterBlock, Signal.targets, beq_iff_eq, hlabel, if_false, Flow.signal.injEq] at h
      subst h
      exact ⟨rfl, beq_eq_false_iff_ne.mpr hlabel⟩
  case signal.leave | signal.yield =>
    cases h
    exact ⟨rfl, rfl⟩
  all_goals exact nomatch h

theorem caseStep_pass {signal : Signal} (hkind : kind.isSwitch = true)
    (h : flow.caseStep kind.label? = .pass signal) :
    flow = .signal signal ∧ kind.takes signal.exit = false := by
  rcases flow with _ | ((_ | label) | (_ | label) | _ | v)
  case signal.breakTo.some | signal.nextTo.some =>
    by_cases hlabel : kind.label? = some label
    · simp [caseStep, Signal.targets, hlabel] at h
    · simp only [caseStep, Signal.targets, beq_iff_eq, hlabel, if_false, CaseStep.pass.injEq] at h
      subst h
      exact ⟨rfl, beq_eq_false_iff_ne.mpr hlabel⟩
  case signal.breakTo.none | signal.leave | signal.yield =>
    cases h
    cases kind <;> first | exact ⟨rfl, rfl⟩ | exact nomatch hkind
  all_goals exact nomatch h

/-- A loop passes on what it does not take. -/
theorem loopStep_within (kind : StmtKind) (h : flow.Within exits) :
    (flow.loopStep kind.label?).Within fun exit => exits exit ∧ kind.takes exit = false := by
  intro signal hstep
  obtain ⟨hsent, htakes⟩ := loopStep_pass hstep
  exact ⟨h signal hsent, htakes⟩

/-- A `do` block passes on what it does not take. -/
theorem afterBlock_within (kind : StmtKind) (h : flow.Within exits) :
    (flow.afterBlock kind.label?).Within fun exit => exits exit ∧ kind.takes exit = false := by
  intro signal hflow
  obtain ⟨hsent, htakes⟩ := afterBlock_signal hflow
  exact ⟨h signal hsent, htakes⟩

/-- A switch passes on what it does not take. -/
theorem caseStep_within (hkind : kind.isSwitch = true) (h : flow.Within exits) :
    (flow.caseStep kind.label?).Within fun exit => exits exit ∧ kind.takes exit = false := by
  intro signal hstep
  obtain ⟨hsent, htakes⟩ := caseStep_pass hkind hstep
  exact ⟨h signal hsent, htakes⟩

end Flow

/-- Every result of the run has a property. -/
def Run.Ends {α : Type} (x : Run α) (P : α → Prop) : Prop := ∀ s a t, x s = .ok a t → P a

namespace Run.Ends

variable {α β : Type} {x : Run α} {f : α → Run β} {P : α → Prop} {Q : β → Prop}

theorem pure {a : α} (h : P a) : (Pure.pure a : Run α).Ends P := by
  rintro _ _ _ ⟨⟩
  exact h

theorem weaken {P' : α → Prop} (h : x.Ends P) (hP : ∀ a, P a → P' a) : x.Ends P' :=
  fun s a t hx => hP a (h s a t hx)

theorem bind (hx : x.Ends P) (hf : ∀ a, P a → (f a).Ends Q) : (x >>= f).Ends Q := by
  intro s b u h
  obtain ⟨a, t, hxt, hft⟩ := exists_of_bind_ok h
  exact hf a (hx s a t hxt) t b u hft

/-- After any run. -/
theorem andThen (hf : ∀ a, (f a).Ends Q) : (x >>= f).Ends Q :=
  bind (P := fun _ => True) (fun _ _ _ _ => trivial) fun a _ => hf a

theorem ite {c : Prop} [Decidable c] {y : Run α} (hx : x.Ends P) (hy : y.Ends P) :
    (if c then x else y : Run α).Ends P := by
  split
  · exact hx
  · exact hy

theorem inScope (h : x.Ends P) : (Run.inScope x).Ends P := by
  intro s a u hrun
  simp only [Run.inScope, Run.leaving] at hrun
  cases hx : x { s with env := s.env.push } with
  | ok b t =>
    simp only [hx, EStateM.Result.ok.injEq] at hrun
    exact hrun.1 ▸ h _ b t hx
  | error e t =>
    simp only [hx] at hrun
    cases hrun

theorem mapReport {g : Report → Report} (h : x.Ends P) : (Run.mapReport g x).Ends P := by
  intro s a u hrun
  simp only [Run.mapReport] at hrun
  cases hx : x s with
  | ok b t =>
    simp only [hx, EStateM.Result.ok.injEq] at hrun
    exact hrun.1 ▸ h s b t hx
  | error e t =>
    simp only [hx] at hrun
    cases hrun

variable {exits : Exit → Prop}

theorem ofStep (step : LoopStep) {y : Run Flow} (hy : y.Ends (Flow.Within exits)) :
    step.Within exits → (match step with
      | .again => y
      | .stop => Pure.pure .normal
      | .pass s => Pure.pure (.signal s) : Run Flow).Ends (Flow.Within exits) := by
  intro hstep
  cases step with
  | again => exact hy
  | stop => exact pure Flow.within_normal
  | pass s => exact pure (Flow.within_signal (hstep s rfl))

theorem loop {step : Run LoopStep} (h : step.Ends (LoopStep.Within exits)) (n : Nat) :
    (Run.loop step n).Ends (Flow.Within exits) := by
  induction n with
  | zero => exact fun _ _ _ h => nomatch h
  | succ n ih => exact h.bind fun result => ofStep result ih

theorem forValues {step : Value → Run LoopStep} (h : ∀ v, (step v).Ends (LoopStep.Within exits))
    (vs : List Value) : (Run.forValues step vs).Ends (Flow.Within exits) := by
  induction vs with
  | nil => exact pure Flow.within_normal
  | cons v vs ih => exact (h v).bind fun result => ofStep result ih

end Run.Ends

namespace Evaluator

open Run.Ends (pure andThen)

variable {r : Evaluator} {parts body : List Stmt}

/-- Statements of some blocks take no exits but those that they send. -/
def Contains (r : Evaluator) (parts : List Stmt) : Prop :=
  ∀ s ∈ parts, (r.exec s).Ends (Flow.Within s.Sends)

namespace Contains

variable (h : r.Contains parts)

include h

theorem block (hbody : body ⊆ parts) :
    (r.block body).Ends (Flow.Within fun exit => ∃ s ∈ parts, s.Sends exit) := by
  induction body with
  | nil => exact pure Flow.within_normal
  | cons stmt rest ih =>
    obtain ⟨hstmt, hrest⟩ := List.cons_subset.mp hbody
    refine (h stmt hstmt).bind fun flow hflow => ?_
    cases flow with
    | normal => exact ih hrest
    | signal s => exact pure (Flow.within_signal ⟨stmt, hstmt, hflow s rfl⟩)

theorem scopedBlock {body : List Stmt} (hbody : body ⊆ parts) :
    (r.scopedBlock body).Ends (Flow.Within fun exit => ∃ s ∈ parts, s.Sends exit) :=
  .inScope (h.block hbody)

theorem branches {otherwise : Option (List Stmt)} {bs : List Branch}
    (hotherwise : otherwise.getD [] ⊆ parts)
    (hbs : ∀ test body, .mk test body ∈ bs → body ⊆ parts) :
    (r.branches otherwise bs).Ends (Flow.Within fun exit => ∃ s ∈ parts, s.Sends exit) := by
  induction bs with
  | nil =>
    cases otherwise with
    | none => exact pure Flow.within_normal
    | some body => exact h.scopedBlock hotherwise
  | cons branch rest ih =>
    obtain ⟨test, body⟩ := branch
    refine andThen fun _ => .ite (h.scopedBlock (hbs test body List.mem_cons_self)) ?_
    exact ih fun t b hb => hbs t b (List.mem_cons_of_mem _ hb)

theorem cases (kind : StmtKind) (hkind : kind.isSwitch = true) {cs : List Case} (v : Value)
    (hcs : ∀ test body, .mk test body ∈ cs → body ⊆ parts) :
    (r.cases kind.label? v cs).Ends (Flow.Within fun exit =>
      (∃ s ∈ parts, s.Sends exit) ∧ kind.takes exit = false) := by
  induction cs with
  | nil => exact pure Flow.within_normal
  | cons first rest ih =>
    obtain ⟨test, body⟩ := first
    have hrest := ih fun t b hb => hcs t b (List.mem_cons_of_mem _ hb)
    refine andThen fun _ => .ite ?_ hrest
    refine (h.scopedBlock (hcs test body List.mem_cons_self)).bind fun flow hflow => ?_
    have hstep := Flow.caseStep_within hkind hflow
    revert hstep
    cases flow.caseStep kind.label? with
    | done => exact fun _ => pure Flow.within_normal
    | onward => exact fun _ => hrest
    | pass s => exact fun hstep => pure (Flow.within_signal (hstep s rfl))

variable (kind : StmtKind)

theorem whileStep (test : Expr) (hbody : body ⊆ parts) :
    (r.whileStep kind.label? test body).Ends (LoopStep.Within fun exit =>
      (∃ s ∈ parts, s.Sends exit) ∧ kind.takes exit = false) := by
  refine andThen fun _ => .ite ?_ (pure fun _ hstop => nomatch hstop)
  exact (h.scopedBlock hbody).bind fun flow hflow => pure (Flow.loopStep_within kind hflow)

theorem untilStep (test : Expr) (hbody : body ⊆ parts) :
    (r.untilStep kind.label? test body).Ends (LoopStep.Within fun exit =>
      (∃ s ∈ parts, s.Sends exit) ∧ kind.takes exit = false) := by
  refine (h.scopedBlock hbody).bind fun flow hflow => ?_
  have hstep := Flow.loopStep_within kind hflow
  revert hstep
  cases flow.loopStep kind.label? with
  | again =>
    refine fun _ => andThen fun b => pure ?_
    cases b <;> exact fun _ hs => nomatch hs
  | stop => exact fun hstep => pure hstep
  | pass s => exact fun hstep => pure hstep

theorem countStep (test increment : Expr) (hbody : body ⊆ parts) :
    (r.countStep kind.label? test increment body).Ends (LoopStep.Within fun exit =>
      (∃ s ∈ parts, s.Sends exit) ∧ kind.takes exit = false) := by
  refine (h.whileStep kind test hbody).bind fun step hstep => ?_
  cases step with
  | again => exact andThen fun _ => pure hstep
  | stop => exact pure hstep
  | pass s => exact pure hstep

theorem eachStep (name : String) (t : Ty) (v : Value)
    (hbody : body ⊆ parts) :
    (r.eachStep kind.label? name t body v).Ends (LoopStep.Within fun exit =>
      (∃ s ∈ parts, s.Sends exit) ∧ kind.takes exit = false) := by
  have hround : (Run.inScope (Evaluator.bind name t v false >>= fun _ => r.block body)).Ends
      (Flow.Within fun exit => ∃ s ∈ parts, s.Sends exit) :=
    .inScope (andThen fun _ => h.block hbody)
  exact hround.bind fun flow hflow => pure (Flow.loopStep_within kind hflow)

theorem eachOfStep (names : List (String × TypeExpr)) (v : Value)
    (hbody : body ⊆ parts) :
    (r.eachOfStep kind.label? names body v).Ends (LoopStep.Within fun exit =>
      (∃ s ∈ parts, s.Sends exit) ∧ kind.takes exit = false) := by
  refine andThen fun vs => ?_
  have hround : (Run.inScope (r.bindAll names vs false >>= fun _ => r.block body)).Ends
      (Flow.Within fun exit => ∃ s ∈ parts, s.Sends exit) :=
    .inScope (andThen fun _ => h.block hbody)
  exact hround.bind fun flow hflow => pure (Flow.loopStep_within kind hflow)

end Contains

/-- A form of statement takes no exits but those that it sends, if the statements of its blocks
do not. -/
theorem stmtKind_sends {kind : StmtKind} (h : r.Contains kind.parts) (span : Span) :
    (r.stmtKind kind).Ends (Flow.Within (Stmt.mk kind span).Sends) := by
  have hself : ∀ signal : Signal, kind.exit? = some signal.exit →
      (Flow.signal signal).Within (Stmt.mk kind span).Sends :=
    fun signal hexit => Flow.within_signal (.self hexit)
  have hinside : ∀ flow : Flow, (flow.Within fun exit => (∃ s ∈ kind.parts, s.Sends exit) ∧
      kind.takes exit = false) → flow.Within (Stmt.mk kind span).Sends := by
    intro flow hflow signal hsignal
    obtain ⟨⟨s, hs, hsends⟩, htakes⟩ := hflow signal hsignal
    exact .inside hs hsends htakes
  have hall : ∀ {x : Run Flow}, x.Ends (Flow.Within fun exit => ∃ s ∈ kind.parts, s.Sends exit) →
      (∀ signal : Signal, kind.takes signal.exit = false) →
        x.Ends (Flow.Within (Stmt.mk kind span).Sends) :=
    fun hx htakes => hx.weaken fun flow hflow => hinside flow fun signal hsignal =>
      ⟨hflow signal hsignal, htakes signal⟩
  have hnormal : ∀ {α : Type} (x : Run α),
      (x >>= fun _ => Pure.pure .normal : Run Flow).Ends
        (Flow.Within (Stmt.mk kind span).Sends) :=
    fun x => andThen fun _ => pure Flow.within_normal
  cases kind with
  | none => exact pure Flow.within_normal
  | expression e => exact hnormal _
  | declare name type init constant => exact hnormal _
  | declareEach names init constant => exact andThen fun _ => andThen fun _ => hnormal _
  | data name fields => exact hnormal _
  | sub d => exact hnormal _
  | «alias» name written => exact hnormal _
  | enum name kind entries => exact hnormal _
  | breakTo label => exact pure (hself (.breakTo label) rfl)
  | nextTo label => exact pure (hself (.nextTo label) rfl)
  | leave => exact pure (hself .leave rfl)
  | yield e => exact andThen fun _ => andThen fun v => pure (hself (.yield v) rfl)
  | block body =>
    refine hall (h.scopedBlock (List.Subset.refl body)) fun signal => ?_
    cases signal with
    | breakTo label | nextTo label => cases label <;> rfl
    | _ => rfl
  | doBlock label body =>
    refine (h.scopedBlock (List.Subset.refl body)).bind fun flow hflow => ?_
    exact pure (hinside _ (Flow.afterBlock_within (.doBlock label body) hflow))
  | ifElse bs otherwise =>
    have hotherwise : otherwise.getD [] ⊆ (StmtKind.ifElse bs otherwise).parts :=
      List.subset_append_right _ _
    refine hall (h.branches hotherwise fun test body hb s hs => ?_) fun signal => ?_
    · exact List.mem_append_left _ (List.mem_flatMap.mpr ⟨_, hb, hs⟩)
    · cases signal with
      | breakTo label | nextTo label => cases label <;> rfl
      | _ => rfl
  | switch label subject cs =>
    refine andThen fun v => (h.cases (.switch label subject cs) rfl v ?_).weaken hinside
    exact fun test body hc s hs => List.mem_flatMap.mpr ⟨_, hc, hs⟩
  | whileLoop label test body =>
    have hstep := h.whileStep (.whileLoop label test body) test (List.Subset.refl _)
    exact (Run.Ends.loop hstep r.rounds).weaken hinside
  | untilLoop label test body =>
    have hstep := h.untilStep (.untilLoop label test body) test (List.Subset.refl _)
    exact (Run.Ends.loop hstep r.rounds).weaken hinside
  | forCount label name type start limit step body =>
    refine .inScope (andThen fun _ => andThen fun _ => andThen fun _ => ?_)
    have hstep := fun test increment => h.countStep
      (.forCount label name type start limit step body) test increment (List.Subset.refl _)
    exact (Run.Ends.loop (hstep _ _) r.rounds).weaken hinside
  | forEach label name type iterable body =>
    refine andThen fun t => andThen fun vs => ?_
    have hstep := fun v => h.eachStep (.forEach label name type iterable body) name t v
      (List.Subset.refl _)
    exact (Run.Ends.forValues hstep vs).weaken hinside
  | forEachOf label names iterable body =>
    refine andThen fun vs => ?_
    have hstep := fun v => h.eachOfStep (.forEachOf label names iterable body) names v
      (List.Subset.refl _)
    exact (Run.Ends.forValues hstep vs).weaken hinside

theorem stmt_sends {s : Stmt} (h : r.Contains s.kind.parts) :
    (r.stmt s).Ends (Flow.Within s.Sends) := by
  obtain ⟨kind, span⟩ := s
  exact .mapReport (stmtKind_sends h span)

/-- A statement that is executed to the end takes no exit but one that it sends. -/
theorem interrupted_sends (library : Library) (halt : State → Bool) (fuel : Nat) (s : Stmt) :
    ((interrupted library halt fuel).exec s).Ends (Flow.Within s.Sends) := by
  induction fuel generalizing s with
  | zero => exact fun _ _ _ h => nomatch h
  | succ fuel ih =>
    intro s₀ flow t hrun
    have hstmt : (interrupted library halt fuel).stmt s s₀ = .ok flow t := by
      by_cases hhalt : halt s₀ = true
      · exact nomatch (if_pos hhalt : Run.unlessHalted halt _ s₀ = _).symm.trans hrun
      · exact (if_neg hhalt : Run.unlessHalted halt _ s₀ = _).symm.trans hrun
    exact stmt_sends (fun s _ => ih s) s₀ flow t hstmt

end Evaluator

end BasicScript
