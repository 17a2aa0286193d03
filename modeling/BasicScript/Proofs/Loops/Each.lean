import BasicScript.Proofs.Control.Exits
import BasicScript.Proofs.Loops.Counting
import BasicScript.Proofs.Stores.Sequence

/-! # Loops over values

A loop over values takes the elements of its value when it is entered. From then
on it walks these and looks at the value no more, whatever its body does to the
value, to its elements or to the variable that it came from. Each round is a run
of the body in a scope of its own.
-/

namespace BasicScript

/-- The elements that a loop over an expression walks, with the state in which they are taken: those
of a sequence, or the entries of an enum that is named by a type. -/
inductive Evaluator.Takes (r : Evaluator) (iterable : Expr) (s : State) :
    List Value → State → Prop
  | value {v : Value} {vs : List Value} {t : State} :
      (∀ written, iterable.kind ≠ .type written) → r.eval none iterable s = .ok v t →
        t.store.Sequence v vs → Takes r iterable s vs t
  | entries {written : TypeExpr} {enum : String} {decl : EnumDecl} {t : State} :
      iterable.kind = .type written → r.resolveType written s = .ok (.enum enum) t →
        t.env.enum? enum = some decl → Takes r iterable s decl.values t
  | default {written : TypeExpr} {type : Ty} {v : Value} {vs : List Value} {s₁ t : State} :
      iterable.kind = .type written → r.resolveType written s = .ok type s₁ →
        (∀ enum, type ≠ .enum enum) → r.eval none iterable s₁ = .ok v t →
          t.store.Sequence v vs → Takes r iterable s vs t

/-- The type of a loop variable: the declared one, or that of the element. -/
def Ty.forElement? (t : Ty) (σ : Store) (v : Value) : Option Ty :=
  match t with
  | .inferred => σ.typeOf? v
  | t => some t

/-- A round is entered with an element: there is one more scope, in which the loop variable alone is
declared, and it holds what the element becomes under the type of the variable. -/
def State.Enters (s : State) (name : String) (t : Ty) (v : Value) (s₁ : State) : Prop :=
  ∃ type w σ, t.forElement? s.store v = some type ∧ type.conform s.store v = .ok (w, σ) ∧
    s₁ = State.entering { s with store := σ } name ⟨type, w, false⟩

/-- An element is refused where no type can be inferred from it, and where it does not belong to the
type. -/
inductive State.RefusesElement (s : State) (t : Ty) (v : Value) : Fault → Prop
  | untyped : t.forElement? s.store v = none → RefusesElement s t v .cannotInfer
  | unfit {type : Ty} {m : Mismatch} : t.forElement? s.store v = some type →
      type.conform s.store v = .error m →
        RefusesElement s t v (.ofMismatch type (s.store.typeOf? v) m)

/-- A body has ended so that the loop goes on: normally, or with a `next` for the loop. -/
def Flow.GoesOn (label : Option String) (flow : Flow) : Prop :=
  flow = .normal ∨ ∃ aim, flow = .signal (.nextTo aim) ∧ Signal.targets aim label = true

/-- A body has ended with a `break` for the loop. -/
def Flow.Breaks (label : Option String) (flow : Flow) : Prop :=
  ∃ aim, flow = .signal (.breakTo aim) ∧ Signal.targets aim label = true

/-- A signal is aimed further out than at the loop. -/
def Signal.Passes (label : Option String) (signal : Signal) : Prop :=
  ∀ aim, signal = .breakTo aim ∨ signal = .nextTo aim → Signal.targets aim label = false

/-- One run of the body of a loop. -/
structure Round where
  element : Value
  /-- The state in which the body starts. -/
  entry : State
  outcome : EStateM.Result Stop State Flow

/-- A walk over values: the rounds that are run one after another, and how the walk ends. The values
are those that are left, and the state is the one between the rounds. -/
inductive Evaluator.Walks (r : Evaluator) (label : Option String) (name : String) (t : Ty)
    (body : List Stmt) : List Value → State → List Round → EStateM.Result Stop State Flow → Prop
  /-- No value is left. -/
  | done {s : State} : Walks r label name t body [] s [] (.ok .normal s)
  /-- The loop variable does not take the element. -/
  | refused {v : Value} {vs : List Value} {s : State} {f : Fault} : s.RefusesElement t v f →
      Walks r label name t body (v :: vs) s [] (.error (.error (.ofFault f)) (Run.popScope
        { s with env := s.env.push }))
  /-- The walk goes on with the following value, in what the body has made of the state. -/
  | onward {v : Value} {vs : List Value} {s s₁ u : State} {flow : Flow} {rounds : List Round}
      {result : EStateM.Result Stop State Flow} : s.Enters name t v s₁ →
        r.block body s₁ = .ok flow u → flow.GoesOn label →
          Walks r label name t body vs (Run.popScope u) rounds result →
            Walks r label name t body (v :: vs) s (⟨v, s₁, .ok flow u⟩ :: rounds) result
  /-- A `break` for the loop ends it. -/
  | broken {v : Value} {vs : List Value} {s s₁ u : State} {flow : Flow} : s.Enters name t v s₁ →
      r.block body s₁ = .ok flow u → flow.Breaks label →
        Walks r label name t body (v :: vs) s [⟨v, s₁, .ok flow u⟩] (.ok .normal (Run.popScope u))
  /-- A signal that is aimed further out is passed on. -/
  | passed {v : Value} {vs : List Value} {s s₁ u : State} {signal : Signal} :
      s.Enters name t v s₁ → r.block body s₁ = .ok (.signal signal) u → signal.Passes label →
        Walks r label name t body (v :: vs) s [⟨v, s₁, .ok (.signal signal) u⟩]
          (.ok (.signal signal) (Run.popScope u))
  /-- An error in the body is passed on. -/
  | failed {v : Value} {vs : List Value} {s s₁ u : State} {e : Stop} : s.Enters name t v s₁ →
      r.block body s₁ = .error e u →
        Walks r label name t body (v :: vs) s [⟨v, s₁, .error e u⟩] (.error e (Run.popScope u))

theorem Flow.loopStep_cases (label : Option String) (flow : Flow) :
    (flow.loopStep label = .again ∧ flow.GoesOn label) ∨
      (flow.loopStep label = .stop ∧ flow.Breaks label) ∨
        ∃ signal, flow = .signal signal ∧ flow.loopStep label = .pass signal ∧
          signal.Passes label := by
  cases flow with
  | normal => exact .inl ⟨rfl, .inl rfl⟩
  | signal signal =>
    cases signal with
    | breakTo aim =>
      cases haim : Signal.targets aim label with
      | true => exact .inr (.inl ⟨by simp only [loopStep, haim, if_true], aim, rfl, haim⟩)
      | false =>
        refine .inr (.inr ⟨_, rfl, by simp [loopStep, haim], ?_⟩)
        rintro _ (h | h) <;> cases h
        exact haim
    | nextTo aim =>
      cases haim : Signal.targets aim label with
      | true => exact .inl ⟨by simp only [loopStep, haim, if_true], .inr ⟨aim, rfl, haim⟩⟩
      | false =>
        refine .inr (.inr ⟨_, rfl, by simp [loopStep, haim], ?_⟩)
        rintro _ (h | h) <;> cases h
        exact haim
    | leave =>
      refine .inr (.inr ⟨_, rfl, rfl, ?_⟩)
      rintro _ (h | h) <;> cases h
    | yield v =>
      refine .inr (.inr ⟨_, rfl, rfl, ?_⟩)
      rintro _ (h | h) <;> cases h

namespace Evaluator

variable {r : Evaluator} {label : Option String} {name : String} {t : Ty} {body : List Stmt}
  {v : Value} {vs : List Value} {s s₁ : State}

theorem bindingType_some {type : Ty} (h : t.forElement? s.store v = some type) :
    bindingType v t s = .ok type s := by
  cases t with
  | inferred =>
    show Run.require .cannotInfer (s.store.typeOf? v) s = _
    rw [show s.store.typeOf? v = some type from h]
    rfl
  | _ =>
    cases h
    rfl

theorem bindingType_none (h : t.forElement? s.store v = none) :
    bindingType v t s = .error (.error (.ofFault .cannotInfer)) s := by
  cases t with
  | inferred =>
    show Run.require .cannotInfer (s.store.typeOf? v) s = _
    rw [show s.store.typeOf? v = none from h]
    rfl
  | _ => cases h

theorem enters_or_refuses (s : State) (name : String) (t : Ty) (v : Value) :
    (∃ s₁, s.Enters name t v s₁) ∨ ∃ f, s.RefusesElement t v f := by
  cases htype : t.forElement? s.store v with
  | none => exact .inr ⟨_, .untyped htype⟩
  | some type =>
    cases hconform : type.conform s.store v with
    | ok p => exact .inl ⟨_, type, p.1, p.2, htype, hconform, rfl⟩
    | error m => exact .inr ⟨_, .unfit htype hconform⟩

/-- In the scope of a round the loop variable is declared. -/
theorem bind_enters (h : s.Enters name t v s₁) :
    bind name t v false { s with env := s.env.push } = .ok () s₁ := by
  obtain ⟨type, w, σ, htype, hconform, rfl⟩ := h
  have hbinding := bindingType_some (s := { s with env := s.env.push }) htype
  have hfit : Run.conform type v { s with env := s.env.push } =
      .ok w { s with store := σ, env := s.env.push } := by
    simp only [Run.conform, Run.fit, hconform]
  refine (Run.bind_ok hbinding _).trans ((Run.bind_ok hfit _).trans ?_)
  exact Run.bind_ok (if_pos (s.env.takesVariable_push name)) _

theorem bind_refuses {f : Fault} (h : s.RefusesElement t v f) (name : String) :
    bind name t v false { s with env := s.env.push } =
      .error (.error (.ofFault f)) { s with env := s.env.push } := by
  cases h with
  | untyped htype =>
    exact Run.bind_error (bindingType_none (s := { s with env := s.env.push }) htype) _
  | @unfit type m htype hconform =>
    have hbinding := bindingType_some (s := { s with env := s.env.push }) htype
    refine (Run.bind_ok hbinding _).trans (Run.bind_error ?_ _)
    simp only [Run.conform, Run.fit, hconform]
    rfl

theorem eachStep_ok (label : Option String) {flow : Flow} {u : State}
    (henters : s.Enters name t v s₁) (hbody : r.block body s₁ = .ok flow u) :
    r.eachStep label name t body v s = .ok (flow.loopStep label) (Run.popScope u) := by
  have hinside : (bind name t v false >>= fun _ => r.block body) { s with env := s.env.push } =
      .ok flow u := (Run.bind_ok (bind_enters henters) _).trans hbody
  have hscope : Run.inScope (bind name t v false >>= fun _ => r.block body) s =
      .ok flow (Run.popScope u) := by
    simp only [Run.inScope, Run.leaving, hinside]
  exact Run.bind_ok hscope _

theorem eachStep_error (label : Option String) {e : Stop} {u : State}
    (hinside : (bind name t v false >>= fun _ => r.block body) { s with env := s.env.push } =
      .error e u) : r.eachStep label name t body v s = .error e (Run.popScope u) := by
  have hscope : Run.inScope (bind name t v false >>= fun _ => r.block body) s =
      .error e (Run.popScope u) := by
    simp only [Run.inScope, Run.leaving, hinside]
  exact Run.bind_error hscope _

theorem eachStep_refused (r : Evaluator) (label : Option String) (name : String)
    (body : List Stmt) {f : Fault} (h : s.RefusesElement t v f) :
    r.eachStep label name t body v s =
      .error (.error (.ofFault f)) (Run.popScope { s with env := s.env.push }) :=
  eachStep_error label (Run.bind_error (bind_refuses h name) _)

/-- A loop over values is a walk over them. -/
theorem walks_forValues (r : Evaluator) (label : Option String) (name : String) (t : Ty)
    (body : List Stmt) (vs : List Value) (s : State) :
    ∃ rounds, r.Walks label name t body vs s rounds
      (Run.forValues (r.eachStep label name t body) vs s) := by
  induction vs generalizing s with
  | nil => exact ⟨[], .done⟩
  | cons v vs ih =>
    rcases enters_or_refuses s name t v with ⟨s₁, henters⟩ | ⟨f, hrefuses⟩
    · cases hbody : r.block body s₁ with
      | ok flow u =>
        have hrun : Run.forValues (r.eachStep label name t body) (v :: vs) s = _ :=
          Run.bind_ok (eachStep_ok label henters hbody) _
        rw [hrun]
        rcases Flow.loopStep_cases label flow with
          ⟨hloop, hgoes⟩ | ⟨hloop, hbreaks⟩ | ⟨signal, rfl, hloop, hpasses⟩
        · obtain ⟨rounds, hwalks⟩ := ih (Run.popScope u)
          rw [hloop]
          exact ⟨_, .onward henters hbody hgoes hwalks⟩
        · rw [hloop]
          exact ⟨_, .broken henters hbody hbreaks⟩
        · rw [hloop]
          exact ⟨_, .passed henters hbody hpasses⟩
      | error e u =>
        have hstep := eachStep_error label ((Run.bind_ok (bind_enters henters) _).trans hbody)
        rw [show Run.forValues (r.eachStep label name t body) (v :: vs) s = _ from
          Run.bind_error hstep _]
        exact ⟨_, .failed henters hbody⟩
    · have hstep := eachStep_refused r label name body hrefuses
      rw [show Run.forValues (r.eachStep label name t body) (v :: vs) s = _ from
        Run.bind_error hstep _]
      exact ⟨_, .refused hrefuses⟩

/-- What is walked are the values in their order, each of them once, and all of them unless the walk
ends with an error, with a signal that is aimed further out, or in a round with a `break`. -/
theorem Walks.elements {rounds : List Round} {result : EStateM.Result Stop State Flow}
    (h : r.Walks label name t body vs s rounds result) :
    rounds.map Round.element <+: vs ∧
      (rounds.map Round.element = vs ∨ (∃ e u, result = .error e u) ∨
        (∃ signal u, result = .ok (.signal signal) u ∧ signal.Passes label) ∨
          ∃ round flow u, rounds.getLast? = some round ∧ round.outcome = .ok flow u ∧
            flow.Breaks label ∧ result = .ok .normal (Run.popScope u)) := by
  induction h with
  | done => exact ⟨List.prefix_rfl, .inl rfl⟩
  | refused hf => exact ⟨List.nil_prefix, .inr (.inl ⟨_, _, rfl⟩)⟩
  | @onward v vs s s₁ u flow rounds result henters hbody hgoes _ ih =>
    obtain ⟨hfront, hends⟩ := ih
    refine ⟨List.cons_prefix_cons.mpr ⟨rfl, hfront⟩, ?_⟩
    rcases hends with hall | herror | hsignal | ⟨round, flow', u', hlast, hbreak⟩
    · exact .inl (congrArg (v :: ·) hall)
    · exact .inr (.inl herror)
    · exact .inr (.inr (.inl hsignal))
    · refine .inr (.inr (.inr ⟨round, flow', u', ?_, hbreak⟩))
      rw [List.getLast?_cons, hlast, Option.getD_some]
  | broken henters hbody hbreaks =>
    exact ⟨List.cons_prefix_cons.mpr ⟨rfl, List.nil_prefix⟩,
      .inr (.inr (.inr ⟨_, _, _, rfl, rfl, hbreaks, rfl⟩))⟩
  | passed henters hbody hpasses =>
    exact ⟨List.cons_prefix_cons.mpr ⟨rfl, List.nil_prefix⟩,
      .inr (.inr (.inl ⟨_, _, rfl, hpasses⟩))⟩
  | failed henters hbody =>
    exact ⟨List.cons_prefix_cons.mpr ⟨rfl, List.nil_prefix⟩, .inr (.inl ⟨_, _, rfl⟩)⟩

/-- A round leaves the state between the rounds in its frame. -/
theorem frame_of_round (hr : r.Precedes none False r) {flow : Flow} {u : State}
    (henters : s.Enters name t v s₁) (hbody : r.block body s₁ = .ok flow u) :
    Frame False s (Run.popScope u) :=
  (hr.eachStep none name t body v).frame_ok (eachStep_ok none henters hbody)

/-- Each round is entered, below the scope of the loop, from a state with the same stacks. -/
theorem Walks.entered (hr : r.Precedes none False r) {rounds : List Round}
    {result : EStateM.Result Stop State Flow}
    (h : r.Walks label name t body vs s rounds result) :
    ∀ round ∈ rounds, ∃ s', Frame False s s' ∧ s'.Enters name t round.element round.entry ∧
      r.block body round.entry = round.outcome := by
  induction h with
  | done => exact List.forall_mem_nil _
  | refused hf => exact List.forall_mem_nil _
  | @onward v vs s s₁ u flow rounds result henters hbody hgoes _ ih =>
    refine List.forall_mem_cons.mpr ⟨⟨s, .refl False s, henters, hbody⟩, fun round hround => ?_⟩
    obtain ⟨s', hframe, hrest⟩ := ih round hround
    exact ⟨s', (frame_of_round hr henters hbody).trans hframe, hrest⟩
  | broken henters hbody hbreaks =>
    exact List.forall_mem_singleton.mpr ⟨_, .refl False _, henters, hbody⟩
  | passed henters hbody hpasses =>
    exact List.forall_mem_singleton.mpr ⟨_, .refl False _, henters, hbody⟩
  | failed henters hbody =>
    exact List.forall_mem_singleton.mpr ⟨_, .refl False _, henters, hbody⟩

/-- The loop variable is visible in the scope of the round, which is below the scope of the loop. -/
theorem visible_of_enters (h : s.Enters name t v s₁) :
    s₁.env.current = ⟨s.env.scopes.size⟩ :: s.env.current ∧ ∃ id type w σ,
      s₁.env.cell? name = some id ∧ s₁.store.cell id = ⟨type, w, false⟩ ∧
        t.forElement? s.store v = some type ∧ type.conform s.store v = .ok (w, σ) := by
  obtain ⟨type, w, σ, htype, hconform, rfl⟩ := h
  refine ⟨rfl, ⟨σ.cells.size⟩, type, w, σ, ?_, ?_, htype, hconform⟩
  · have hscope : ((s.env.push.addVariable name ⟨σ.cells.size⟩).scope ⟨s.env.scopes.size⟩).cell?
        name = some ⟨σ.cells.size⟩ := by
      show ((((s.env.scopes.push Scope.blank).modify s.env.scopes.size _)[s.env.scopes.size]?.getD
        .blank).cells).lookup name = _
      rw [Array.getElem?_modify, if_pos rfl, Array.getElem?_push_size]
      exact List.lookup_cons_self
    show ((⟨s.env.scopes.size⟩ :: s.env.current).findSome? fun id =>
      ((s.env.push.addVariable name ⟨σ.cells.size⟩).scope id).cell? name) = _
    rw [List.findSome?_cons, hscope]
  · show (σ.cells.push _)[σ.cells.size]?.getD _ = _
    rw [Array.getElem?_push_size, Option.getD_some]

section Takes

variable {iterable : Expr} {written : TypeExpr} {type : Ty} {enum : String}

theorem iterationValues_entries (hkind : iterable.kind = .type written)
    (htype : r.resolveType written s = .ok (.enum enum) s₁) :
    r.iterationValues iterable s = (Run.require (.undeclared .enum enum) (s₁.env.enum? enum) >>=
      fun decl => pure decl.values) s₁ := by
  unfold iterationValues
  rw [hkind]
  exact Run.bind_ok htype _

theorem iterationValues_default (hkind : iterable.kind = .type written)
    (htype : r.resolveType written s = .ok type s₁) (hother : ∀ enum, type ≠ .enum enum) :
    r.iterationValues iterable s = (r.eval none iterable >>= Run.elementsOf) s₁ := by
  unfold iterationValues
  rw [hkind]
  refine (Run.bind_ok htype _).trans ?_
  split
  · exact absurd rfl (hother _)
  · rfl

theorem Takes.iterationValues (h : r.Takes iterable s vs s₁) :
    r.iterationValues iterable s = .ok vs s₁ := by
  cases h with
  | value hkind hv hvs =>
    exact (iterationValues_expression hkind hv).trans (Run.elementsOf_sequence hvs)
  | entries hkind htype henum =>
    rw [iterationValues_entries hkind htype, henum]
    rfl
  | default hkind htype hother hv hvs =>
    rw [iterationValues_default hkind htype hother, Run.bind_ok hv]
    exact Run.elementsOf_sequence hvs

theorem takes_of_iterationValues (h : r.iterationValues iterable s = .ok vs s₁) :
    r.Takes iterable s vs s₁ := by
  by_cases hkind : ∃ written, iterable.kind = .type written
  case neg =>
    rw [iterationValues_of_ne (not_exists.mp hkind)] at h
    obtain ⟨v, t, hv, hes⟩ := Run.exists_of_bind_ok h
    obtain ⟨rfl, hvs⟩ := Run.sequence_of_elementsOf hes
    exact .value (not_exists.mp hkind) hv hvs
  obtain ⟨written, hkind⟩ := hkind
  cases htype : r.resolveType written s with
  | error e u =>
    unfold iterationValues at h
    rw [hkind] at h
    exact nomatch (Run.bind_error htype _).symm.trans h
  | ok type t =>
    by_cases henum : ∃ enum, type = .enum enum
    case neg =>
      rw [iterationValues_default hkind htype (not_exists.mp henum)] at h
      obtain ⟨v, t', hv, hes⟩ := Run.exists_of_bind_ok h
      obtain ⟨rfl, hvs⟩ := Run.sequence_of_elementsOf hes
      exact .default hkind htype (not_exists.mp henum) hv hvs
    obtain ⟨enum, rfl⟩ := henum
    rw [iterationValues_entries hkind htype] at h
    cases hdecl : t.env.enum? enum with
    | none =>
      rw [hdecl] at h
      exact nomatch h
    | some decl =>
      rw [hdecl] at h
      cases h
      exact .entries hkind htype hdecl

end Takes

/-- A loop that finds no elements fails. -/
theorem each_fails {iterable : Expr} {type : TypeExpr}
    (h : ∀ t s₀ vs s₁, r.resolveType type s = .ok t s₀ → ¬r.Takes iterable s₀ vs s₁)
    (label : Option String) (name : String) (body : List Stmt) (span : Span) :
    ∃ e u, r.stmt (.mk (.forEach label name type iterable body) span) s = .error e u := by
  have hfails : ∃ e u, r.stmtKind (.forEach label name type iterable body) s = .error e u := by
    cases htype : r.resolveType type s with
    | error e u => exact ⟨e, u, Run.bind_error htype _⟩
    | ok t s₀ =>
      have hafter : r.stmtKind (.forEach label name type iterable body) s = _ :=
        Run.bind_ok htype _
      cases hvalues : r.iterationValues iterable s₀ with
      | error e u => exact ⟨e, u, hafter.trans (Run.bind_error hvalues _)⟩
      | ok vs s₁ => exact absurd (takes_of_iterationValues hvalues) (h t s₀ vs s₁ htype)
  obtain ⟨e, u, hrun⟩ := hfails
  exact ⟨_, u, Run.mapReport_congr (y := fun _ => .error e u) (t := s) _ hrun⟩

/-- A loop over values walks the elements that its value has when it is entered. The body runs once
for each of them, in order, whatever it does to the value; each time in a fresh scope below that of
the loop, in which the loop variable holds what the element becomes under the declared type or under
its own. The walk ends before the last element only with an error, with a signal that is aimed
further out, or with a `break` for the loop. If there are no elements to be had, the loop fails. -/
theorem each_walks (fuel : Nat) (s : State) (label : Option String) (name : String)
    (type : TypeExpr) (iterable : Expr) (body : List Stmt) (span : Span) :
    let r := ofFuel .standard fuel
    let loop := Stmt.mk (.forEach label name type iterable body) span
    (∀ t s₀ vs s₁, r.resolveType type s = .ok t s₀ → r.Takes iterable s₀ vs s₁ →
      ∃ rounds result,
        r.stmt loop s = Run.traced loop.kind.describe span (fun _ => result) s ∧
        r.Walks label name t body vs s₁ rounds result ∧
        rounds.map Round.element <+: vs ∧
        (rounds.map Round.element = vs ∨ (∃ e u, result = .error e u) ∨
          (∃ signal u, result = .ok (.signal signal) u ∧ signal.Passes label) ∨
            ∃ round flow u, rounds.getLast? = some round ∧ round.outcome = .ok flow u ∧
              flow.Breaks label ∧ result = .ok .normal (Run.popScope u)) ∧
        ∀ round ∈ rounds, r.block body round.entry = round.outcome ∧
          ∃ before : State, s₁.SameStacks before ∧ s₁.Grows before ∧
            before.Enters name t round.element round.entry ∧
            round.entry.env.current = ⟨before.env.scopes.size⟩ :: s₁.env.current ∧
            ∃ id declared w σ, round.entry.env.cell? name = some id ∧
              round.entry.store.cell id = ⟨declared, w, false⟩ ∧
              t.forElement? before.store round.element = some declared ∧
              declared.conform before.store round.element = .ok (w, σ)) ∧
    ((∀ t s₀ vs s₁, r.resolveType type s = .ok t s₀ → ¬r.Takes iterable s₀ vs s₁) →
      ∃ e u, r.stmt loop s = .error e u) := by
  intro r loop
  have hr : r.Precedes none False r := ofFuel_precedes_self Library.standard_framed fuel
  constructor
  · intro t s₀ vs s₁ htype htakes
    obtain ⟨rounds, hwalks⟩ := walks_forValues r label name t body vs s₁
    have hrun : r.stmtKind loop.kind s = Run.forValues (r.eachStep label name t body) vs s₁ :=
      (Run.bind_ok htype _).trans (Run.bind_ok htakes.iterationValues _)
    obtain ⟨hfront, hends⟩ := hwalks.elements
    refine ⟨rounds, _, Run.mapReport_congr _ hrun, hwalks, hfront, hends, fun round hround => ?_⟩
    obtain ⟨before, hframe, henters, hbody⟩ := hwalks.entered hr round hround
    obtain ⟨hscope, hvariable⟩ := visible_of_enters henters
    exact ⟨hbody, before, hframe.sameStacks, hframe.grows, henters, hframe.current ▸ hscope,
      hvariable⟩
  · exact fun hnone => each_fails hnone label name body span

/-- The block `{ xs[1] = 7 }`. -/
def overwriting : List Stmt :=
  [.generated (.expression (storingAt "xs" 1 (.generated (.literal (.int 7)))))]

/-- After `var xs as int[] = [1, 2]`, the loop `for each x as int in xs { xs[1] = 7 }` walks `1` and
`2`, though its first round has made the array `[1, 7]`. -/
theorem each_walks_overwriting :
    let s := ((interrupted .standard (fun _ => false) 4).run declaringArray).state
      (.initial ⟨false, none, true⟩)
    let r := ofFuel .standard 5
    let xs := Expr.generated (.name "xs")
    let loop := Stmt.generated (.forEach none "x" (.prim .int) xs overwriting)
    Reaches .standard (.initial ⟨false, none, true⟩) s ∧
    ((r.stmt loop).state s).store.text (.array ⟨0⟩) = "[1, 7]" ∧
    ∃ vs rounds result, r.Takes xs s vs s ∧ vs.map s.store.text = ["1", "2"] ∧
      r.Walks none "x" (.prim .int) overwriting vs s rounds result ∧
      rounds.map Round.element = vs := by
  intro s r xs loop
  have h : Reaches .standard (.initial ⟨false, none, true⟩) s :=
    .run declaringArray (fun _ => false) 4 .refl
  have hcell : s.env.cell? "xs" = some ⟨0⟩ := by decide +kernel
  have htext : ((r.stmt loop).state s).store.text (.array ⟨0⟩) = "[1, 7]" := by decide +kernel
  obtain ⟨flow, t, hends⟩ : ∃ flow t, r.stmt loop s = .ok flow t :=
    Run.exists_of_succeeds (by decide +kernel)
  have helements : (s.store.elements? (s.store.read ⟨0⟩)).map (·.map s.store.text) =
      some ["1", "2"] := by decide +kernel
  clear_value s
  obtain ⟨vs, hvs, htexts⟩ := Option.map_eq_some_iff.mp helements
  have htakes : r.Takes xs s vs s :=
    .value nofun (Run.atSpan_ok _ (Run.bind_ok (Run.cellOf_ok hcell) _)) (.of_elements? hvs)
  obtain ⟨rounds, result, hrun, hwalks, -, hall, hrounds⟩ :=
    (each_walks 5 s none "x" (.prim .int) xs overwriting .nowhere).1 (.prim .int) s vs s rfl htakes
  refine ⟨h, htext, vs, rounds, result, htakes, htexts, hwalks, ?_⟩
  -- The body sends no signal, so every element has its round.
  have hquiet : ∀ stmt ∈ overwriting, ∀ exit, ¬stmt.Sends exit := by
    rintro stmt hstmt exit hsends
    cases List.mem_singleton.mp hstmt
    rcases hsends with hself | ⟨hpart, -, -⟩
    · exact nomatch hself
    · exact nomatch hpart
  have hcontains : r.Contains overwriting := fun stmt _ => by
    have hsends := interrupted_sends .standard (fun _ => false) 5 stmt
    rwa [interrupted_never] at hsends
  rcases hall with hall | ⟨e, u, rfl⟩ | ⟨signal, u, rfl, -⟩ |
    ⟨round, flow, u, hlast, houtcome, ⟨aim, rfl, -⟩, -⟩
  · exact hall
  · exact nomatch hends.symm.trans hrun
  · have hloop : (Stmt.mk (.forEach none "x" (.prim .int) xs overwriting) .nowhere).Sends
        signal.exit := stmt_sends hcontains s _ u hrun signal rfl
    rcases hloop with hself | ⟨hmem, hsends, -⟩
    · exact nomatch hself
    · exact absurd hsends (hquiet _ hmem _)
  · have hblock := (hrounds round (List.mem_of_getLast? hlast)).1.trans houtcome
    obtain ⟨stmt, hmem, hsends⟩ := hcontains.block (List.Subset.refl _) _ _ _ hblock _ rfl
    exact absurd hsends (hquiet stmt hmem _)

end Evaluator

end BasicScript
