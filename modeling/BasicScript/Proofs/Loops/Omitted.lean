import BasicScript.Proofs.Loops.Counter
import BasicScript.Proofs.Loops.Rounds

/-! # Counting loops without a step

A loop that names no step counts in steps of the `int` 1. For a counter of kind
`int` or `long` that is the same as a step of 1 in the kind of the counter:
every round and the whole loop do the same. The sum of a narrower counter and
an `int` is an `int`, which the counter does not take, so there the loop ends
with a mismatch as soon as it would go on after a round.
-/

namespace BasicScript

namespace State

/-- The name stands for a variable that is declared with a numeric kind, in a typed state. -/
structure Counts (s : State) (name : String) (id : CellId) (k : NumericKind) : Prop where
  typed : s.Typed
  type : (s.store.cell id).type = .ofKind k
  counter : ∃ n, s.Counter name id k n

variable {α : Type} {x : Run α} {a : α} {P : Claim α} {s t : State} {name : String} {id : CellId}
  {k : NumericKind}

/-- Whatever declares nothing and keeps the types leaves such a variable, with a number in it. -/
theorem Counts.run (h : s.Counts name id k) (hframe : Frame False s (x.state s))
    (hsound : x.Sound s P) (hrun : x s = .ok a t) : t.Counts name id k := by
  obtain ⟨n, hn⟩ := h.counter
  have ht := (hsound h.typed).1
  rw [Run.state_ok hrun] at hframe ht
  have hkeeps := hframe.grows.store.cell hn.present
  have htype := hkeeps.type.trans h.type
  have hvalue : (s.store.read id).isMissing = false := by
    rw [hn.value]
    rfl
  have hpresent : id.index < t.store.cells.size :=
    Nat.lt_of_lt_of_le hn.present hframe.grows.store.cells.size_le
  have hhas := ht.store.cell_has hpresent (hkeeps.present hvalue)
  rw [htype] at hhas
  obtain ⟨m, hm, hkind⟩ := Ty.number_of_check (hhas.fits.check ht.store)
  exact ⟨ht, htype, m, hn.frame hframe hm hkind⟩

end State

namespace Evaluator

variable (r : Evaluator) (label : Option String) (name : String) (written : TypeExpr)
  (start limit step : Expr) (body : List Stmt)

/-- The type with which a counting loop declares its counter. -/
def counterType : Run Ty := do
  let t ← r.resolveType written
  let v ← r.eval t.hint? start
  bindingType v t

/-- The declaration of the counter. -/
def declareCounter : Run Unit := do
  let t ← r.resolveType written
  let v ← r.eval t.hint? start
  bind name t v false

/-- One round of a counting loop with a step. -/
def countRound : Run LoopStep :=
  r.countStep label (.isBelow name limit limit.span) (.increment name step start.span) body

/-- The step of a loop that names none. -/
def omittedStep : Expr := .mk (.literal (.int 1)) .nowhere

theorem countLoop_eq (step : Option Expr) :
    r.countLoop label name written start limit step body = Run.inScope (do
      r.declareCounter name written start
      Run.loop (r.countRound label name start limit (step.getD omittedStep) body) r.rounds) := by
  simp only [declareCounter, bind_assoc]
  rfl

variable {r label name written start limit step body} {fuel : ℕ} {s t u : State} {id : CellId}
  {k : NumericKind} {m n : Number} {one : Literal} {atStep : Span}

/-- Resolving the type and evaluating the start leave the scope of the loop as it was made. -/
theorem counterType_frame {type : Ty}
    (h : (ofFuel .standard fuel).counterType written start s = .ok type t) : Frame False s t := by
  have hprecedes := ofFuel_precedes_self (c := False) Library.standard_framed fuel
  exact ((hprecedes.resolveType written).bind fun t =>
    (hprecedes.eval t.hint? start).bind fun v => Precedes.bindingType v t).frame_ok h

theorem declareCounter_sound (hs : s.Typed)
    (h : (ofFuel .standard fuel).declareCounter name written start s = .ok () t) : t.Typed := by
  have hsound : ((ofFuel .standard fuel).declareCounter name written start).Sound s .nothing :=
    ((standard_sound fuel).resolveType written).bind fun t u _ _ =>
      ((standard_sound fuel).eval _ start u).bind fun v u' _ hv => Sound.bind name t false hv
  have ht := (hsound hs).1
  rwa [Run.state_ok h] at ht

/-- The declaration settles the type, and then declares the name for the number that was given. -/
theorem declareCounter_ok
    (hcounts : ∀ t u, (ofFuel .standard fuel).counterType written start s = .ok t u →
      t = .ofKind k)
    (h : (ofFuel .standard fuel).declareCounter name written start s = .ok () t) :
    ∃ u n, Frame False s u ∧ n.kind = k ∧
      t = u.withVariable name ⟨.ofKind k, .number n, false⟩ := by
  obtain ⟨type, s₁, htype, h⟩ := Run.exists_of_bind_ok h
  obtain ⟨v, s₂, hv, h⟩ := Run.exists_of_bind_ok h
  obtain ⟨bound, s₃, hbound, h⟩ := Run.exists_of_bind_ok h
  obtain ⟨w, u, hw, h⟩ := Run.exists_of_bind_ok h
  have hcounter : (ofFuel .standard fuel).counterType written start s = .ok bound s₃ :=
    (Run.bind_ok htype _).trans ((Run.bind_ok hv _).trans hbound)
  obtain rfl := hcounts _ _ hcounter
  have hconform : Frame False s₃ ((Run.conform (.ofKind k) v).state s₃) :=
    (Run.Tracks.conform (c := False) _ v).frame s₃
  rw [Run.state_ok hw] at hconform
  obtain ⟨n, rfl, hn⟩ : ∃ n, w = .number n ∧ n.kind = k := by
    rcases Run.fit_cases (.ofKind k) v _ s₃ with ⟨w', σ, hfits, hrun⟩ | ⟨m, -, hrun⟩
    · cases hw.symm.trans hrun
      exact Ty.number_of_check (Ty.conform_ok.mp hfits).2
    · cases hw.symm.trans hrun
  refine ⟨u, n, (counterType_frame hcounter).trans hconform, hn, ?_⟩
  obtain ⟨id, t', hdeclare, hdone⟩ := Run.exists_of_bind_ok h
  cases hdone
  rcases Run.declareVariable_cases name ⟨.ofKind k, .number n, false⟩ u with
    ⟨-, hrun⟩ | ⟨f, hrun⟩
  · cases hdeclare.symm.trans hrun
    rfl
  · cases hdeclare.symm.trans hrun

/-- Once the loop has declared its counter, the name stands for it. -/
theorem declareCounter_counts {settings : Settings} (hs : s.Amid settings)
    (hcounts : ∀ t u, (ofFuel .standard fuel).counterType written start
      { s with env := s.env.push } = .ok t u → t = .ofKind k)
    (h : (ofFuel .standard fuel).declareCounter name written start { s with env := s.env.push } =
      .ok () t) : ∃ id, t.Counts name id k := by
  have ht := declareCounter_sound (hs.typed.pushBelow s.env.current) h
  obtain ⟨u, n, hframe, hn, rfl⟩ := declareCounter_ok hcounts h
  have hcurrent : u.env.current = ⟨s.env.scopes.size⟩ :: s.env.current := hframe.current
  have hreach : ∀ id ∈ u.env.current, id.index < u.env.scopes.size := by
    intro id hid
    refine Nat.lt_of_lt_of_le ?_ hframe.grows.scopes.size_le
    show id.index < (s.env.scopes.push .blank).size
    rw [Array.size_push]
    rw [hcurrent] at hid
    rcases List.mem_cons.mp hid with rfl | hid
    · exact Nat.lt_succ_self _
    · exact Nat.lt_succ_of_lt (hs.nested.current.2 id hid)
  refine ⟨⟨u.store.cells.size⟩, ht, ?_, n,
    .declared hcurrent hreach name (.inr ⟨rfl, Nat.le_refl _⟩) hn⟩
  simp [State.withVariable, Store.cell, Store.newCell]

theorem whileStep_counts {test : Expr} {answer : LoopStep} (h : s.Counts name id k)
    (hrun : (ofFuel .standard fuel).whileStep label test body s = .ok answer t) :
    t.Counts name id k := by
  have hprecedes := ofFuel_precedes_self (c := False) Library.standard_framed fuel
  exact h.run ((hprecedes.whileStep label test body).frame s)
    ((standard_sound fuel).whileStep label test body) hrun

theorem countRound_counts {answer : LoopStep} (h : s.Counts name id k)
    (hrun : (ofFuel .standard fuel).countRound label name start limit step body s = .ok answer t) :
    t.Counts name id k := by
  have hprecedes := ofFuel_precedes_self (c := False) Library.standard_framed fuel
  exact h.run ((hprecedes.countStep label _ _ body).frame s)
    ((standard_sound fuel).countStep label _ _ body) hrun

/-- Two loops take the same round if, where that goes on after its body, they increment alike. -/
theorem countRound_congr {step' : Expr}
    (hsame : ∀ t, (ofFuel .standard fuel).whileStep label (.isBelow name limit limit.span) body s =
      .ok .again t → (ofFuel .standard fuel).eval none (.increment name step start.span) t =
        (ofFuel .standard fuel).eval none (.increment name step' start.span) t) :
    (ofFuel .standard fuel).countRound label name start limit step body s =
      (ofFuel .standard fuel).countRound label name start limit step' body s := by
  unfold countRound countStep
  cases hwhile :
    (ofFuel .standard fuel).whileStep label (.isBelow name limit limit.span) body s with
  | error e t => rw [Run.bind_error hwhile, Run.bind_error hwhile]
  | ok answer t =>
    rw [Run.bind_ok hwhile, Run.bind_ok hwhile]
    cases answer with
    | again => exact Run.bind_congr (hsame t hwhile) _
    | stop => rfl
    | pass signal => rfl

/-- A round that asks for more has come to its increment. -/
theorem countRound_again
    (h : (ofFuel .standard fuel).countRound label name start limit step body s = .ok .again u) :
    ∃ t v, (ofFuel .standard fuel).whileStep label (.isBelow name limit limit.span) body s =
      .ok .again t ∧ (ofFuel .standard fuel).eval none (.increment name step start.span) t =
        .ok v u := by
  obtain ⟨answer, t, hwhile, h⟩ := Run.exists_of_bind_ok h
  cases answer with
  | again =>
    obtain ⟨v, u', heval, hdone⟩ := Run.exists_of_bind_ok h
    cases hdone
    exact ⟨t, v, hwhile, heval⟩
  | stop => cases h
  | pass signal => cases h

/-- The omitted step makes the sum an `int`, or leaves it in the kind of the counter if that is the
wider one. -/
theorem eval_omitted (h : s.Counter name id k m) (hk : k.isIntegral = true) (fuel : ℕ)
    (span : Span) :
    (ofFuel .standard fuel).eval none (.increment name omittedStep span) s =
      if fuel < 3 then .error .outOfFuel s
      else Run.atSpan span (Run.assign id name
        (.number (.ofInt (m.toInt + 1) (k.wider .int)))) s :=
  eval_increment (n := .int 1) h rfl hk rfl fuel span .nowhere

theorem eval_one (h : s.Counter name id k m) (hk : k.isIntegral = true)
    (hone : Value.ofLiteral one = .number (.ofInt 1 k)) (fuel : ℕ) (span atStep : Span) :
    (ofFuel .standard fuel).eval none (.increment name (.mk (.literal one) atStep) span) s =
      if fuel < 3 then .error .outOfFuel s
      else Run.atSpan span (Run.assign id name (.number (.ofInt (m.toInt + 1) k))) s := by
  rw [eval_increment h hone hk (by rwa [Number.kind_ofInt]), Number.kind_ofInt,
    Number.toInt_one hk, NumericKind.wider_self]

/-- Where the counter is no narrower than an `int`, both steps lead through the same rounds. -/
theorem countRound_same (h : s.Counts name id k) (hk : k.isIntegral = true)
    (hle : NumericKind.int ≤ k) (hone : Value.ofLiteral one = .number (.ofInt 1 k)) :
    (ofFuel .standard fuel).countRound label name start limit omittedStep body s =
      (ofFuel .standard fuel).countRound label name start limit (.mk (.literal one) atStep) body
        s := by
  refine countRound_congr fun t hwhile => ?_
  obtain ⟨m, hm⟩ := (whileStep_counts h hwhile).counter
  rw [eval_omitted hm hk, eval_one hm hk hone, NumericKind.wider_comm, NumericKind.wider,
    if_pos hle]

/-- Where the counter is narrower, both steps take the same round unless that one goes on. -/
theorem countRound_last (h : s.Counts name id k) (hk : k.isIntegral = true)
    (hone : Value.ofLiteral one = .number (.ofInt 1 k))
    (hlast : ∀ u, (ofFuel .standard fuel).countRound label name start limit
      (.mk (.literal one) atStep) body s ≠ .ok .again u) :
    (ofFuel .standard fuel).countRound label name start limit omittedStep body s =
      (ofFuel .standard fuel).countRound label name start limit (.mk (.literal one) atStep) body
        s := by
  refine countRound_congr fun t hwhile => ?_
  obtain ⟨m, hm⟩ := (whileStep_counts h hwhile).counter
  by_cases hfuel : fuel < 3
  · rw [eval_omitted hm hk, eval_one hm hk hone, if_pos hfuel, if_pos hfuel]
  · have hone := eval_one hm hk hone fuel start.span atStep
    rw [if_neg hfuel, Run.atSpan_ok start.span (hm.assign name (Number.kind_ofInt _ _) hk)] at hone
    exact absurd ((Run.bind_ok hwhile _).trans (Run.bind_ok hone _)) (hlast _)

/-- Where the counter is narrower and the round would go on, the sum is an `int` that does not fit
the counter. -/
theorem countRound_mismatch (h : s.Counts name id k) (hk : k.isIntegral = true)
    (hlt : k < .int) (hone : Value.ofLiteral one = .number (.ofInt 1 k))
    (hagain : (ofFuel .standard fuel).countRound label name start limit
      (.mk (.literal one) atStep) body s = .ok .again u) :
    3 ≤ fuel ∧ ∃ e t, (ofFuel .standard fuel).countRound label name start limit omittedStep body s =
      .error (.error e) t ∧ e.fault = .mismatchedType (.ofKind k) (some (.ofKind .int)) := by
  obtain ⟨t, v, hwhile, heval⟩ := countRound_again hagain
  have ht := whileStep_counts h hwhile
  obtain ⟨m, hm⟩ := ht.counter
  rw [eval_one hm hk hone] at heval
  have hfuel : ¬fuel < 3 := by
    intro hfuel
    rw [if_pos hfuel] at heval
    cases heval
  have homitted := eval_omitted hm hk fuel start.span
  have hwider : k.wider .int = .int := if_pos (Nat.le_of_lt hlt)
  have hfault := hm.assign_wider (m := .ofInt (m.toInt + 1) .int) ht.type name
    (by rwa [Number.kind_ofInt])
  rw [if_neg hfuel, hwider, Run.atSpan_error start.span hfault] at homitted
  exact ⟨by omega, _, _, (Run.bind_ok hwhile _).trans (Run.bind_error homitted _), rfl⟩

theorem stmt_count (r : Evaluator) (span : Span) (step : Option Expr) :
    r.stmt (.mk (.forCount label name written start limit step body) span) =
      Run.traced "for loop" span (Run.inScope (do
        r.declareCounter name written start
        Run.loop (r.countRound label name start limit (step.getD omittedStep) body) r.rounds)) := by
  rw [← countLoop_eq]
  rfl

/-- Two loops do the same if they do so from where their counter has been declared. -/
theorem stmt_congr {span : Span} {first second : Option Expr}
    (h : ∀ t, r.declareCounter name written start { s with env := s.env.push } = .ok () t →
      Run.loop (r.countRound label name start limit (first.getD omittedStep) body) r.rounds t =
        Run.loop (r.countRound label name start limit (second.getD omittedStep) body) r.rounds t) :
    r.stmt (.mk (.forCount label name written start limit first body) span) s =
      r.stmt (.mk (.forCount label name written start limit second body) span) s := by
  rw [stmt_count, stmt_count]
  apply Run.mapReport_congr
  apply Run.inScope_congr
  cases hdeclare : r.declareCounter name written start { s with env := s.env.push } with
  | ok a t => rw [Run.bind_ok hdeclare, Run.bind_ok hdeclare, h t hdeclare]
  | error e t => rw [Run.bind_error hdeclare, Run.bind_error hdeclare]

/-- An error of the loop leads out of its scope, and the loop adds itself to the trace. -/
theorem stmt_count_error {span : Span} {step : Option Expr} {e : Report}
    (hdeclare : r.declareCounter name written start { s with env := s.env.push } = .ok () t)
    (hloop : Run.loop (r.countRound label name start limit (step.getD omittedStep) body) r.rounds
      t = .error (.error e) u) :
    r.stmt (.mk (.forCount label name written start limit step body) span) s =
      .error (.error (e.traced "for loop" span)) (Run.popScope u) := by
  have hinside : (do
      r.declareCounter name written start
      Run.loop (r.countRound label name start limit (step.getD omittedStep) body) r.rounds :
        Run Flow) { s with env := s.env.push } = .error (.error e) u :=
    (Run.bind_ok hdeclare _).trans hloop
  rw [stmt_count]
  simp only [Run.traced, Run.mapReport, Run.inScope, Run.leaving, hinside]
  rfl

/-- A counting loop without a step against the same loop with a step of 1 in the kind of its
counter, whatever its start, limit and body are and wherever in a run it stands. If the counter is
an `int` or a `long`, every round and the whole loop do the same, with any fuel. If it is narrower,
the loops do the same unless the one with the step goes on after its first round. Where that goes
on, the one without a step ends with the mismatch of an `int` and the counter. -/
theorem omitted_step {settings : Settings} {s : State} (hs : s.Amid settings) (fuel : ℕ)
    (label : Option String) (name : String) (written : TypeExpr) (start limit : Expr)
    (body : List Stmt) (span atStep : Span) {k : NumericKind} (hk : k.isIntegral = true)
    (hcounts : ∀ t u, (ofFuel .standard fuel).counterType written start
      { s with env := s.env.push } = .ok t u → t = .ofKind k)
    {one : Literal} (hone : Value.ofLiteral one = .number (.ofInt 1 k)) :
    let r := ofFuel .standard fuel
    let inside := { s with env := s.env.push }
    let loop (step : Option Expr) : Stmt :=
      .mk (.forCount label name written start limit step body) span
    let round (step : Expr) := r.countRound label name start limit step body
    let explicit := Expr.mk (.literal one) atStep
    (.int ≤ k → r.stmt (loop none) s = r.stmt (loop (some explicit)) s ∧
      ∀ t, r.declareCounter name written start inside = .ok () t → ∀ n u,
        Run.Rounds (round omittedStep) n t u ↔ Run.Rounds (round explicit) n t u) ∧
    (k < .int →
      let goesOn := ∃ t u, r.declareCounter name written start inside = .ok () t ∧
        round explicit t = .ok .again u
      (¬goesOn → r.stmt (loop none) s = r.stmt (loop (some explicit)) s) ∧
      (goesOn → ∃ e u, r.stmt (loop none) s = .error (.error e) u ∧
        e.fault = .mismatchedType (.ofKind k) (some (.ofKind .int)))) := by
  intro r inside loop round explicit
  have hcounter : ∀ t, r.declareCounter name written start inside = .ok () t →
      ∃ id, t.Counts name id k := fun t => declareCounter_counts hs hcounts
  constructor
  · intro hle
    constructor
    · refine stmt_congr fun t ht => ?_
      obtain ⟨id, hid⟩ := hcounter t ht
      exact Run.loop_congr (fun _ _ => countRound_counts)
        (fun _ h => countRound_same h hk hle hone) hid r.rounds
    · intro t ht n u
      obtain ⟨id, hid⟩ := hcounter t ht
      exact Run.Rounds.congr (fun _ _ => countRound_counts)
        (fun _ h => countRound_same h hk hle hone) hid
  · intro hlt goesOn
    constructor
    · intro hlast
      refine (stmt_congr fun t ht => ?_).symm
      obtain ⟨id, hid⟩ := hcounter t ht
      have hstop : ∀ u, round explicit t ≠ .ok .again u := fun u hu => hlast ⟨t, u, ht, hu⟩
      exact Run.loop_congr_last hstop (countRound_last hid hk hone hstop).symm r.rounds
    · rintro ⟨t, u, ht, hu⟩
      obtain ⟨id, hid⟩ := hcounter t ht
      obtain ⟨hfuel, e, v, hround, hfault⟩ := countRound_mismatch hid hk hlt hone hu
      obtain ⟨fuel, rfl⟩ := Nat.exists_eq_add_of_le' hfuel
      have hloop : Run.loop (round omittedStep) r.rounds t = .error (.error e) v :=
        Run.loop_error hround (Nat.succ_pos _)
      exact ⟨_, _, stmt_count_error ht hloop, hfault⟩

/-- The state after `var n int = 0`. -/
def declaringTally : State :=
  ((interrupted .standard (fun _ => false) 6).run [.generated (.declare "n" (.prim .int)
    (.generated (.literal (.int 0))) false)]).state (.initial ⟨false, none, true⟩)

/-- The loop `for i = 0 to 3`, with a counter of a type and a body that counts its runs in `n`. -/
def upToThree (type : Primitive) (step : Option Expr) : Stmt :=
  .generated (.forCount none "i" (.prim type) (.generated (.literal (.byte 0)))
    (.generated (.literal (.byte 3))) step [.generated (.expression (.increment "n"
      (.generated (.literal (.int 1))) .nowhere))])

/-- With a `long` the steps make no difference, and with a `byte` the omitted one is a mismatch. -/
theorem omitted_step_upToThree :
    let r := ofFuel .standard 12
    let one (l : Literal) : Expr := .generated (.literal l)
    r.stmt (upToThree .long none) declaringTally =
      r.stmt (upToThree .long (some (one (.long 1)))) declaringTally ∧
    ∃ e u, r.stmt (upToThree .byte none) declaringTally = .error (.error e) u ∧
      e.fault = .mismatchedType (.prim .byte) (some (.prim .int)) := by
  intro r one
  have hs : declaringTally.Amid ⟨false, none, true⟩ :=
    Reaches.amid (.run _ (fun _ => false) 6 .refl)
  have hlong := omitted_step hs 12 none "i" (.prim .long) (one (.byte 0)) (one (.byte 3))
    [.generated (.expression (.increment "n" (one (.int 1)) .nowhere))] .nowhere .nowhere
    (k := .long) rfl (by rintro _ _ ⟨⟩; rfl)
    (rfl : Value.ofLiteral (.long 1) = .number (.ofInt 1 .long))
  have hbyte := omitted_step hs 12 none "i" (.prim .byte) (one (.byte 0)) (one (.byte 3))
    [.generated (.expression (.increment "n" (one (.int 1)) .nowhere))] .nowhere .nowhere
    (k := .byte) rfl (by rintro _ _ ⟨⟩; rfl)
    (rfl : Value.ofLiteral (.byte 1) = .number (.ofInt 1 .byte))
  exact ⟨(hlong.1 (by decide)).1, (hbyte.2 (by decide)).2 ⟨_, _, rfl, rfl⟩⟩

/-- A loop with a `byte` from 0 to 3 runs its body three times in steps of the `byte` 1; without a
step it ends with a mismatch after the first time. -/
theorem omitted_step_stopsBytes :
    let shown (t : State) := (t.env.cell? "n").bind fun id => (t.store.read id).integral?
    (match (ofFuel .standard 12).stmt (upToThree .byte (some (.generated (.literal (.byte 1)))))
        declaringTally with
      | .ok .normal t => shown t
      | _ => none) = some 3 ∧
    (match (ofFuel .standard 12).stmt (upToThree .byte none) declaringTally with
      | .error (.error ⟨.mismatchedType (.prim .byte) (some (.prim .int)), _, _, _⟩) t => shown t
      | _ => none) = some 1 := by
  decide +kernel

end Evaluator

end BasicScript
