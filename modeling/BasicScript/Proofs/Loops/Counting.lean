import Mathlib.Algebra.Order.Floor.Ring
import Mathlib.Data.Rat.Floor
import BasicScript.Proofs.Loops.Counter
import BasicScript.Proofs.Loops.Rounds

/-! # Counting loops

As long as no sum of counter and step leaves the range of its kind, a counting
loop takes as many rounds as there are steps from the start up to the limit.
-/

namespace BasicScript

/-- A loop goes on after its body where that ended normally, or with a `next` aimed at the loop. -/
theorem Flow.loopStep_again_iff {flow : Flow} {label : Option String} :
    flow.loopStep label = .again ↔
      flow = .normal ∨ ∃ aim, flow = .signal (.nextTo aim) ∧ Signal.targets aim label = true := by
  constructor
  · intro h
    cases flow with
    | normal => exact .inl rfl
    | signal signal =>
      cases signal with
      | nextTo aim =>
        refine .inr ⟨aim, rfl, ?_⟩
        by_contra hne
        simp [Flow.loopStep, hne] at h
      | breakTo aim => by_cases haim : Signal.targets aim label = true <;>
          simp [Flow.loopStep, haim] at h
      | leave => simp [Flow.loopStep] at h
      | yield v => simp [Flow.loopStep] at h
  · rintro (rfl | ⟨aim, rfl, haim⟩)
    · rfl
    · exact if_pos haim

/-- A fresh scope takes every variable. -/
theorem Environment.takesVariable_push (env : Environment) (name : String) :
    env.push.takesVariable name = true := by
  simp [takesVariable, currentScope, scope, currentId, current, push, pushBelow, Scope.cell?,
    Scope.blank]

/-- How many steps lead from a number up to a limit: their distance by the length of a step, rounded
up, and none where the limit is not above. -/
def stepsUpTo (first limit step : ℤ) : ℕ := ⌈((limit - first : ℤ) : ℚ) / step⌉₊

theorem lt_stepsUpTo_iff {first limit step : ℤ} (hstep : 0 < step) {n : ℕ} :
    n < stepsUpTo first limit step ↔ first + n * step < limit := by
  have hpos : (0 : ℚ) < step := by exact_mod_cast hstep
  rw [stepsUpTo, Nat.lt_ceil, lt_div_iff₀ hpos]
  constructor
  · intro h
    have hint : (n : ℤ) * step < limit - first := by exact_mod_cast h
    omega
  · intro h
    have hint : (n : ℤ) * step < limit - first := by omega
    exact_mod_cast hint

/-- A counting loop between literals of one integral kind, with steps of at least one and a counter
that takes whole numbers. -/
structure CountingLoop where
  label : Option String
  name : String
  written : TypeExpr
  body : List Stmt
  first : Literal
  limit : Literal
  step : Literal
  /-- The numbers that the literals stand for. -/
  start : Number
  bound : Number
  length : Number
  /-- Type of the counter, and the kind in which it counts. -/
  type : Ty
  kind : NumericKind
  first_eq : Value.ofLiteral first = .number start
  limit_eq : Value.ofLiteral limit = .number bound
  step_eq : Value.ofLiteral step = .number length
  bound_kind : bound.kind = start.kind
  length_kind : length.kind = start.kind
  length_pos : 1 ≤ length.toInt
  counts : type.CountsIn start.kind kind
  integral : kind.isIntegral = true
  span : Span
  atFirst : Span
  atLimit : Span
  atStep : Span

namespace CountingLoop

open Run (Arrives)

variable (c : CountingLoop)

/-- The loop as a statement. -/
def stmt : Stmt :=
  .mk (.forCount c.label c.name c.written (.mk (.literal c.first) c.atFirst)
    (.mk (.literal c.limit) c.atLimit) (some (.mk (.literal c.step) c.atStep)) c.body) c.span

/-- The expression that is tested before each round. -/
def test : Expr :=
  .mk (.binary .less (.generated (.name c.name)) (.mk (.literal c.limit) c.atLimit)) c.atLimit

/-- The expression that is evaluated after each round. -/
def increment : Expr :=
  .mk (.binary .assign (.generated (.name c.name)) (.generated (.binary .add
    (.generated (.name c.name)) (.mk (.literal c.step) c.atStep)))) c.atFirst

/-- How many steps lead from the first number up to the limit. -/
def rounds : ℕ := stepsUpTo c.start.toInt c.bound.toInt c.length.toInt

/-- The number after so many steps, in the kind of the counter. -/
def number (n : ℕ) : Number := .ofInt (c.start.toInt + n * c.length.toInt) c.kind

/-- The sum that ends the loop is still a number of the kind in which the counter counts. -/
def Fits : Prop :=
  c.bound.toInt ≤ c.start.toInt ∨ c.start.toInt + c.rounds * c.length.toInt < c.kind.reach

/-- The cell of the counter, if the loop starts in a state. -/
def cell (s : State) : CellId := ⟨s.store.cells.size⟩

/-- The state before the first test: a scope of its own holds the counter. -/
def entered (s : State) : State :=
  s.entering c.name ⟨c.type.boundBy c.start, .number (c.number 0), false⟩

/-- The body has run so many times in turn, from the time the loop was entered. Each run ended so
that the loop goes on, and left the counter alone, which took its next number afterwards. -/
inductive Turns (s : State) : ℕ → State → Prop where
  | zero : Turns s 0 (c.entered s)
  | succ {n : ℕ} {t u : State} {flow : Flow} : Turns s n t →
      Arrives (fun fuel => (Evaluator.ofFuel .standard fuel).scopedBlock c.body) t flow u →
      flow.loopStep c.label = .again → u.store.read (cell s) = t.store.read (cell s) →
      Turns s (n + 1) (u.storing (cell s) (.number (c.number (n + 1))))

variable {c} {s t u : State} {n : ℕ} {m : Number} {id : CellId}

theorem lt_rounds_iff : n < c.rounds ↔ c.start.toInt + n * c.length.toInt < c.bound.toInt :=
  lt_stepsUpTo_iff (Int.lt_of_lt_of_le Int.zero_lt_one c.length_pos)

theorem rounds_le (h : c.rounds ≤ n) : c.bound.toInt ≤ c.start.toInt + n * c.length.toInt :=
  Int.not_lt.mp fun hless => Nat.not_lt.mpr h (lt_rounds_iff.mpr hless)

/-- As long as the sums stay in the range of the kind, the counter shows them. -/
theorem toInt_number (hfits : c.Fits) (hn : n ≤ c.rounds) :
    (c.number n).toInt = c.start.toInt + n * c.length.toInt := by
  obtain ⟨hmin, hmax⟩ := Number.toInt_reach
    (NumericKind.isIntegral_of_le c.counts.le c.integral)
  have hreach := NumericKind.reach_mono c.counts.le
  have hpos := c.length_pos
  have hgrown : 0 ≤ n * c.length.toInt := by positivity
  apply Number.toInt_ofInt c.integral
  · omega
  · rcases hfits with hnone | hfits
    · have hrounds : ¬0 < c.rounds := by
        rw [lt_rounds_iff]
        simpa using hnone
      obtain rfl : n = 0 := by omega
      simp only [Nat.cast_zero, Int.zero_mul]
      omega
    · have hmono : (n : ℤ) * c.length.toInt ≤ c.rounds * c.length.toInt := by gcongr
      omega

theorem number_succ (hfits : c.Fits) (hn : n < c.rounds) :
    .ofInt ((c.number n).toInt + c.length.toInt) c.kind = c.number (n + 1) := by
  rw [toInt_number hfits hn.le, number]
  congr 1
  push_cast
  ring

/-- The counter before each round. -/
theorem Turns.counter (hs : s.env.Nested) (h : c.Turns s n t) :
    t.Counter c.name (cell s) c.kind (c.number n) := by
  induction h with
  | zero => exact .entering hs.current.2 c.name c.counts.boundBy.self (Number.kind_ofInt _ _)
  | succ _ hbody _ hvalue ih =>
    exact (ih.scopedBlock hbody hvalue).storing (Number.kind_ofInt _ _)

/-- The test compares the counter with the limit. -/
theorem arrives_test (h : s.Counter c.name id c.kind m) :
    Arrives (fun fuel => (Evaluator.ofFuel .standard fuel).test c.test) s
      (decide (m.toInt < c.bound.toInt)) s :=
  Evaluator.arrives_below h c.limit_eq (c.bound_kind ▸ c.counts.wider) c.integral c.atLimit
    c.atLimit

/-- A round below the limit. -/
theorem arrives_again (h : s.Counter c.name id c.kind m) (hless : m.toInt < c.bound.toInt)
    {flow : Flow}
    (hbody : Arrives (fun fuel => (Evaluator.ofFuel .standard fuel).scopedBlock c.body) s flow t)
    (hflow : flow.loopStep c.label = .again) (hvalue : t.store.read id = s.store.read id) :
    Arrives (fun fuel => (Evaluator.ofFuel .standard fuel).countStep c.label c.test c.increment
      c.body) s .again
      (t.storing id (.number (.ofInt (m.toInt + c.length.toInt) c.kind))) := by
  have htest := arrives_test h
  rw [decide_eq_true hless] at htest
  have hincrement := Evaluator.arrives_increment (h.scopedBlock hbody hvalue) c.step_eq
    (c.length_kind ▸ c.counts.wider) c.integral c.atFirst c.atStep
  have hround : Arrives (fun fuel => (Evaluator.ofFuel .standard fuel).whileStep c.label c.test
      c.body) s .again t := by
    refine htest.bind (hbody.bind (.always fun fuel => ?_))
    rw [hflow]
    rfl
  exact hround.bind (hincrement.bind (.always fun fuel => rfl))

/-- The round in which the counter has come to the limit. -/
theorem arrives_stop (h : s.Counter c.name id c.kind m) (hdone : c.bound.toInt ≤ m.toInt) :
    Arrives (fun fuel => (Evaluator.ofFuel .standard fuel).countStep c.label c.test c.increment
      c.body) s .stop s := by
  have htest := arrives_test h
  rw [decide_eq_false (by omega)] at htest
  exact Arrives.bind (htest.bind (.always fun fuel => rfl)) (.always fun fuel => rfl)

/-- The turns that the body takes below the limit are rounds of the loop. -/
theorem Turns.rounds (hs : s.env.Nested) (hfits : c.Fits) (h : c.Turns s n t)
    (hn : n ≤ c.rounds) :
    ∀ᶠ fuel in Filter.atTop, Run.Rounds ((Evaluator.ofFuel .standard fuel).countStep c.label c.test
      c.increment c.body) n (c.entered s) t := by
  induction h with
  | zero => exact .of_forall fun fuel => .zero _
  | @succ n t u flow hturns hbody hflow hvalue ih =>
    have hless := lt_rounds_iff.mp hn
    rw [← toInt_number hfits (Nat.le_of_succ_le hn)] at hless
    have hround := arrives_again (hturns.counter hs) hless hbody hflow hvalue
    rw [number_succ hfits hn] at hround
    filter_upwards [ih (Nat.le_of_succ_le hn), hround] with fuel hall hlast
    exact hall.succ hlast

/-- The loop enters a scope and declares its counter there. -/
theorem bind_entered (c : CountingLoop) (s : State) :
    Evaluator.bind c.name c.type (.number c.start) false { s with env := s.env.push } =
      .ok () (c.entered s) := by
  have hnumber : c.number 0 = .ofInt c.start.toInt c.kind := by
    simp only [number, Nat.cast_zero, Int.zero_mul, Int.add_zero]
  have hconform := c.counts.boundBy.conform (σ := s.store) c.integral
  rw [← hnumber] at hconform
  have hfit : Run.conform (c.type.boundBy c.start) (.number c.start)
      { s with env := s.env.push } = .ok (.number (c.number 0)) { s with env := s.env.push } := by
    simp only [Run.conform, Run.fit, hconform]
  unfold Evaluator.bind
  rw [Run.bind_ok (Ty.bindingType_number c.type c.start _), Run.bind_ok hfit]
  exact Run.bind_ok (if_pos (s.env.takesVariable_push c.name)) _

/-- Where the last sum leaves the range of the kind, the loop does not stop after all its turns. -/
theorem Turns.goes_on (hs : s.env.Nested) (hfits : ¬c.Fits) (h : c.Turns s c.rounds t) :
    Arrives (fun fuel => (Evaluator.ofFuel .standard fuel).test c.test) t true t := by
  obtain ⟨hstart, hpast⟩ := not_or.mp hfits
  have hbound := Number.toInt_reach (n := c.bound)
    (NumericKind.isIntegral_of_le (c.bound_kind ▸ c.counts.le) c.integral)
  have hlength := Number.toInt_reach (n := c.length)
    (NumericKind.isIntegral_of_le (c.length_kind ▸ c.counts.le) c.integral)
  have hreach := NumericKind.reach_mono c.counts.le
  rw [c.bound_kind] at hbound
  rw [c.length_kind] at hlength
  have hsome : 0 < c.rounds := lt_rounds_iff.mpr (by simpa using hstart)
  obtain ⟨n, hn⟩ := Nat.exists_eq_add_one_of_ne_zero hsome.ne'
  have hlast : c.start.toInt + n * c.length.toInt < c.bound.toInt := lt_rounds_iff.mp (by omega)
  have hshown : (c.number c.rounds).toInt =
      c.start.toInt + c.rounds * c.length.toInt - 2 * c.kind.reach := by
    apply Number.toInt_ofInt_past c.integral (by omega)
    rw [hn]
    push_cast
    linarith
  have hless : (c.number c.rounds).toInt < c.bound.toInt := by
    rw [hshown, hn]
    push_cast
    linarith
  have htest := arrives_test (h.counter hs)
  rwa [decide_eq_true hless] at htest

/-- Once the body has taken all its turns, the loop stops and leaves its scope. -/
theorem Turns.exec (hs : s.env.Nested) (hfits : c.Fits) (h : c.Turns s c.rounds t)
    (hwritten : Arrives (fun fuel => (Evaluator.ofFuel .standard fuel).resolveType c.written)
      { s with env := s.env.push } c.type { s with env := s.env.push }) :
    Arrives (fun fuel => (Evaluator.ofFuel .standard fuel).exec c.stmt) s .normal
      (Run.popScope t) := by
  have hshown := toInt_number hfits (Nat.le_refl c.rounds)
  have hstop := arrives_stop (h.counter hs) (hshown ▸ rounds_le (Nat.le_refl c.rounds))
  have hloop : Arrives (fun fuel => Run.loop ((Evaluator.ofFuel .standard fuel).countStep c.label
      c.test c.increment c.body) (Evaluator.ofFuel .standard fuel).rounds) (c.entered s)
      .normal t := by
    have henough : ∀ᶠ fuel in Filter.atTop,
        c.rounds < (Evaluator.ofFuel .standard fuel).rounds := by
      refine Filter.eventually_atTop.mpr ⟨c.rounds + 2, fun fuel hfuel => ?_⟩
      obtain ⟨more, rfl⟩ := Nat.exists_eq_add_of_le hfuel
      rw [Nat.add_right_comm]
      show c.rounds < c.rounds + more + 1
      omega
    filter_upwards [h.rounds hs hfits (Nat.le_refl _), hstop, henough] with fuel hall hlast hmany
    exact Run.loop_normal_iff.mpr ⟨c.rounds, hmany, t, hall, hlast⟩
  have hstart := Evaluator.arrives_literal .standard c.type.hint? c.atFirst c.first
    { s with env := s.env.push }
  rw [c.first_eq] at hstart
  have hinside : Arrives (fun fuel => (Evaluator.ofFuel .standard fuel).resolveType c.written >>=
      fun type => (Evaluator.ofFuel .standard fuel).eval type.hint?
        (.mk (.literal c.first) c.atFirst) >>= fun v => Evaluator.bind c.name type v false >>=
          fun _ => Run.loop ((Evaluator.ofFuel .standard fuel).countStep c.label c.test
            c.increment c.body) (Evaluator.ofFuel .standard fuel).rounds)
      { s with env := s.env.push } .normal t := by
    refine Arrives.bind hwritten ?_
    refine Arrives.bind hstart ?_
    exact Arrives.bind (.always fun _ => c.bind_entered s) hloop
  refine Arrives.next hinside.inScope fun fuel s flow t hrun => ?_
  have hkind : (Evaluator.ofFuel .standard fuel).stmtKind c.stmt.kind s = .ok flow t := hrun
  show Run.mapReport _ ((Evaluator.ofFuel .standard fuel).stmtKind c.stmt.kind) s = _
  simp only [Run.mapReport, hkind]

/-- A counting loop counts. If every run of the body that the loop asks for ends normally or with a
`next` for the loop, and leaves the counter alone, the loop ends normally after as many runs as
there are steps from the first number up to the limit. Before each run the counter shows the first
number and one step for every run so far, and afterwards each name means what it meant before. The
sum that ends the loop must still be a number of the kind in which the counter counts. -/
theorem exec_counts (hs : s.env.Nested) (hfits : c.Fits)
    (hwritten : Arrives (fun fuel => (Evaluator.ofFuel .standard fuel).resolveType c.written)
      { s with env := s.env.push } c.type { s with env := s.env.push })
    (hbody : ∀ n < c.rounds, ∀ t, c.Turns s n t → ∃ flow u,
      Arrives (fun fuel => (Evaluator.ofFuel .standard fuel).scopedBlock c.body) t flow u ∧
        (flow = .normal ∨ ∃ aim, flow = .signal (.nextTo aim) ∧
          Signal.targets aim c.label = true) ∧
        u.store.read (cell s) = t.store.read (cell s)) :
    (∃ t, c.Turns s c.rounds t ∧ s.SameNames (Run.popScope t) ∧
      Arrives (fun fuel => (Evaluator.ofFuel .standard fuel).exec c.stmt) s .normal
        (Run.popScope t)) ∧
    ∀ n ≤ c.rounds, ∀ t, c.Turns s n t → t.env.cell? c.name = some (cell s) ∧
      ∃ m : Number, t.store.read (cell s) = .number m ∧ m.kind = c.kind ∧
        m.toInt = c.start.toInt + n * c.length.toInt := by
  constructor
  · have hturns : ∀ n ≤ c.rounds, ∃ t, c.Turns s n t := by
      intro n hn
      induction n with
      | zero => exact ⟨_, .zero⟩
      | succ n ih =>
        obtain ⟨t, ht⟩ := ih (Nat.le_of_succ_le hn)
        obtain ⟨flow, u, hrun, hflow, hvalue⟩ := hbody n hn t ht
        exact ⟨_, ht.succ hrun (Flow.loopStep_again_iff.mpr hflow) hvalue⟩
    obtain ⟨t, ht⟩ := hturns c.rounds (Nat.le_refl _)
    have hexec := ht.exec hs hfits hwritten
    refine ⟨t, ht, ?_, hexec⟩
    obtain ⟨least, hruns⟩ := Filter.eventually_atTop.mp hexec
    have hrun : (Evaluator.ofFuel .standard least).stmt c.stmt s = .ok .normal (Run.popScope t) :=
      hruns (least + 1) (Nat.le_succ least)
    have hdeclares := (Evaluator.ofFuel_precedes_self (c := False) Library.standard_framed
      least).stmt_declares c.stmt s
    rw [Run.state_ok hrun] at hdeclares
    exact hdeclares.sameNames hs.current.2
  · intro n hn t ht
    have hcounter := ht.counter hs
    exact ⟨hcounter.visible, _, hcounter.value, hcounter.kind, toInt_number hfits hn⟩

/-- From -3 up to 7 in steps of 4, with a counter of type `long` and a body that is cut short by a
`next`. -/
def skipping : CountingLoop where
  label := some "outer"
  name := "i"
  written := .prim .long
  body := [.generated (.nextTo (some "outer"))]
  first := .byte (-3)
  limit := .byte 7
  step := .byte 4
  start := .byte (-3)
  bound := .byte 7
  length := .byte 4
  type := .prim .long
  kind := .long
  first_eq := rfl
  limit_eq := rfl
  step_eq := rfl
  bound_kind := rfl
  length_kind := rfl
  length_pos := by decide
  counts := .inr ⟨rfl, by decide⟩
  integral := rfl
  span := .nowhere
  atFirst := .nowhere
  atLimit := .nowhere
  atStep := .nowhere

/-- Three runs, with the counter at -3, 1 and 5. -/
theorem exec_counts_skipping :
    let s := State.initial ⟨false, none, true⟩
    skipping.rounds = 3 ∧ skipping.Fits ∧ (∃ t, skipping.Turns s 3 t ∧
      s.SameNames (Run.popScope t) ∧
      Arrives (fun fuel => (Evaluator.ofFuel .standard fuel).exec skipping.stmt) s .normal
        (Run.popScope t)) ∧
    ∀ n ≤ 3, ∀ t, skipping.Turns s n t → t.env.cell? "i" = some ⟨0⟩ ∧
      ∃ m : Number, t.store.read ⟨0⟩ = .number m ∧ m.kind = .long ∧ m.toInt = -3 + n * 4 := by
  intro s
  have hrounds : skipping.rounds = 3 := by
    have hmany : 2 < skipping.rounds := lt_rounds_iff.mpr (by decide)
    have hfew : ¬3 < skipping.rounds := mt lt_rounds_iff.mp (by decide)
    omega
  have hfits : skipping.Fits := by
    right
    rw [hrounds]
    decide
  have hcounts := exec_counts (c := skipping) (s := s) .fresh hfits (.always fun fuel => rfl) <| by
    intro n _ t _
    refine ⟨.signal (.nextTo (some "outer")), { t with env := t.env.push.pop }, ?_,
      .inr ⟨_, rfl, rfl⟩, rfl⟩
    exact Arrives.next (x := fun _ t => .ok _ { t with env := t.env.push.pop })
      (.always fun _ => rfl) (by rintro fuel s flow u ⟨⟩; rfl)
  rw [hrounds] at hcounts
  exact ⟨hrounds, hfits, hcounts⟩

/-- A loop over bytes in steps of 86 whose body counts its runs in the variable `n`. -/
def tallying (first limit : Int8) : CountingLoop where
  label := none
  name := "i"
  written := .prim .byte
  body := [.generated (.expression (.generated (.binary .assign (.generated (.name "n"))
    (.generated (.binary .add (.generated (.name "n")) (.generated (.literal (.int 1))))))))]
  first := .byte first
  limit := .byte limit
  step := .byte 86
  start := .byte first
  bound := .byte limit
  length := .byte 86
  type := .prim .byte
  kind := .byte
  first_eq := rfl
  limit_eq := rfl
  step_eq := rfl
  bound_kind := rfl
  length_kind := rfl
  length_pos := by decide
  counts := .inr ⟨rfl, Nat.le_refl _⟩
  integral := rfl
  span := .nowhere
  atFirst := .nowhere
  atLimit := .nowhere
  atStep := .nowhere

/-- From 124 up to 126 it is one step, but 124 and 86 make -46 in a byte: the body runs three times,
with the counter at 124, -46 and 40. -/
theorem exec_tallying_past :
    let s := ((Evaluator.ofFuel .standard 6).run [.generated (.declare "n" (.prim .int)
      (.generated (.literal (.int 0))) false)]).state (.initial ⟨false, none, true⟩)
    (tallying 124 126).rounds = 1 ∧
      (match (Evaluator.ofFuel .standard 12).exec (tallying 124 126).stmt s with
        | .ok .normal t => (s.env.cell? "n").bind fun id => (t.store.read id).integral?
        | _ => none) = some 3 := by
  constructor
  · have hsome : 0 < (tallying 124 126).rounds := lt_rounds_iff.mpr (by decide)
    have hone : ¬1 < (tallying 124 126).rounds := mt lt_rounds_iff.mp (by decide)
    omega
  · decide +kernel

end CountingLoop

end BasicScript
