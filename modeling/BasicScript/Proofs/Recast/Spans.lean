import BasicScript.Proofs.Frame.Visits

/-! # Places make no difference

Two programs that differ in nothing but the spans of their nodes do the same:
both are recast to the program that is nowhere, and so both outcomes are
recast to the same one. The spans of reports are all that can tell them apart.
-/

namespace BasicScript

/-- Takes the place of every span away. -/
def Span.erase : Span → Span := fun _ => .nowhere

/-- The recasting to programs and states that are nowhere. -/
def Recast.erasing : Recast :=
  { Recast.same with span := Span.erase, nowhere := rfl }

/-- Programs that are the same but for their spans. -/
def SamePrograms (p q : List Stmt) : Prop :=
  p.map (Stmt.mapSpans Span.erase) = q.map (Stmt.mapSpans Span.erase)

/-- Values that are the same but for spans, which they carry in the declarations of their types. -/
def Value.SameBut (v w : Value) : Prop := v.mapSpans Span.erase = w.mapSpans Span.erase

/-- States that are the same but for spans. -/
structure State.SameBut (s t : State) : Prop where
  /-- Storage, scopes and everything else. -/
  whole : s.mapSpans Span.erase = t.mapSpans Span.erase
  output : s.console = t.console
  /-- Each variable in sight holds the same value, -/
  values : ∀ name, (s.valueOf? name).map (Value.mapSpans Span.erase) =
    (t.valueOf? name).map (Value.mapSpans Span.erase)
  /-- which has the same type and is printed alike. -/
  types : ∀ name, (s.valueOf? name).map s.store.typeOf? = (t.valueOf? name).map t.store.typeOf?
  texts : ∀ name, (s.valueOf? name).map s.store.text = (t.valueOf? name).map t.store.text

/-- Reports that are the same but for spans. -/
structure Report.SameBut (e e' : Report) : Prop where
  fault : e.fault = e'.fault
  message : e.message = e'.message
  span : e.span.isSome = e'.span.isSome
  trace : e.trace.map (·.what) = e'.trace.map (·.what)
  backtrace : e.backtrace.map (·.map (·.signature)) = e'.backtrace.map (·.map (·.signature))

/-- Outcomes that are the same but for spans. -/
def Run.SameBut : EStateM.Result Stop State Outcome → EStateM.Result Stop State Outcome → Prop
  | .ok .completed s, .ok .completed t => s.SameBut t
  | .ok (.yielded v) s, .ok (.yielded w) t => v.SameBut w ∧ s.SameBut t
  | .error (.error e) s, .error (.error e') t => e.SameBut e' ∧ s.SameBut t
  | .error .outOfFuel s, .error .outOfFuel t => s.SameBut t
  | _, _ => False

section Views

variable {f : Span → Span}

theorem State.valueOf?_mapSpans (s : State) (name : String) :
    (s.mapSpans f).valueOf? name = (s.valueOf? name).map (Value.mapSpans f) := by
  show ((s.env.mapSpans f).cell? name).map (s.store.mapSpans f).read = _
  rw [s.env.cell?_mapSpans, State.valueOf?, Option.map_map]
  exact congrArg (Option.map · _) (funext fun cell => s.store.read_mapSpans cell)

/-- What does not depend on spans is seen of a variable with any spans. -/
theorem State.valueOf?_view {α : Type} {view : Store → Value → α}
    (h : ∀ (σ : Store) (v : Value), view (σ.mapSpans f) (v.mapSpans f) = view σ v) (s : State)
    (name : String) : ((s.mapSpans f).valueOf? name).map (view (s.mapSpans f).store) =
      (s.valueOf? name).map (view s.store) := by
  rw [s.valueOf?_mapSpans, Option.map_map]
  exact congrArg (Option.map · _) (funext fun v => h s.store v)

end Views

theorem State.SameBut.of_eq {s t : State} (h : s.mapSpans Span.erase = t.mapSpans Span.erase) :
    s.SameBut t where
  whole := h
  output := by
    have hconsole := congrArg State.console h
    exact hconsole
  values name := by rw [← s.valueOf?_mapSpans, ← t.valueOf?_mapSpans, h]
  types name := by
    rw [← s.valueOf?_view (fun σ v => σ.typeOf?_mapSpans v), h,
      t.valueOf?_view fun σ v => σ.typeOf?_mapSpans v]
  texts name := by
    rw [← s.valueOf?_view (fun σ v => σ.text_mapSpans v), h,
      t.valueOf?_view fun σ v => σ.text_mapSpans v]

theorem Report.SameBut.of_eq {e e' : Report}
    (h : e.mapSpans Span.erase = e'.mapSpans Span.erase) : e.SameBut e' := by
  obtain ⟨fault, span, trace, backtrace⟩ := e
  obtain ⟨fault', span', trace', backtrace'⟩ := e'
  obtain ⟨rfl, hspan, htrace, hbacktrace⟩ := Report.mk.inj h
  refine ⟨rfl, rfl, ?_, ?_, ?_⟩
  · simpa only [Option.isSome_map] using congrArg Option.isSome hspan
  · simpa only [List.map_map, Function.comp_def, TraceEntry.mapSpans] using
      congrArg (List.map TraceEntry.what) htrace
  · simpa only [Option.map_map, Function.comp_def, List.map_map, CallFrame.mapSpans] using
      congrArg (Option.map (List.map CallFrame.signature)) hbacktrace

/-- Outcomes that are recast to the same one are the same but for spans. -/
theorem Run.SameBut.of_eq {a b : EStateM.Result Stop State Outcome}
    (h : Recast.erasing.result (Outcome.mapSpans Span.erase) a =
      Recast.erasing.result (Outcome.mapSpans Span.erase) b) : Run.SameBut a b := by
  cases a with
  | ok o s =>
    cases b with
    | error e t => exact nomatch h
    | ok o' t =>
      obtain ⟨ho, hst⟩ := EStateM.Result.ok.inj h
      have hstates : s.SameBut t := .of_eq hst
      cases o with
      | completed =>
        cases o' with
        | completed => exact hstates
        | yielded w => exact nomatch ho
      | yielded v =>
        cases o' with
        | completed => exact nomatch ho
        | yielded w => exact ⟨Outcome.yielded.inj ho, hstates⟩
  | error e s =>
    cases b with
    | ok o' t => exact nomatch h
    | error e' t =>
      obtain ⟨he, hst⟩ := EStateM.Result.error.inj h
      have hstates : s.SameBut t := .of_eq hst
      cases e with
      | outOfFuel =>
        cases e' with
        | outOfFuel => exact hstates
        | error e' => exact nomatch he
      | error e =>
        cases e' with
        | outOfFuel => exact nomatch he
        | error e' => exact ⟨.of_eq (Stop.error.inj he), hstates⟩

/-- Programs that are the same but for their spans have, with equal settings and equal fuel,
outcomes that are the same but for spans: if one of them ends, then so does the other. -/
theorem Evaluator.run_sameBut (settings : Settings) {p q : List Stmt} (h : SamePrograms p q)
    (fuel : Nat) :
    Run.SameBut ((ofFuel .standard fuel).run p (.initial settings))
      ((ofFuel .standard fuel).run q (.initial settings)) := by
  have hfollows := Recast.hooked_follows (Library.standard_recasts .erasing) .idle fuel
  rw [hooked_idle] at hfollows
  have hrecast : ∀ program, (ofFuel .standard fuel).run (program.map (Stmt.mapSpans Span.erase))
      (Recast.erasing.state (.initial settings)) =
        Recast.erasing.result (Outcome.mapSpans Span.erase)
          ((ofFuel .standard fuel).run program (.initial settings)) := by
    intro program
    exact ((hfollows.run program) _ .fresh).2.resolve_right fun hlossy => hlossy.1
  refine .of_eq ((hrecast p).symm.trans ?_)
  rw [show p.map (Stmt.mapSpans Span.erase) = q.map (Stmt.mapSpans Span.erase) from h]
  exact hrecast q

/-- The program `sub f() as int { yield y }; f()`, read from some offset on. -/
def failingCall (offset : Nat) : List Stmt :=
  let span (n : Nat) : Span := ⟨offset + n, offset + n + 1⟩
  [.mk (.sub (.mk "f" [] (.prim .int)
      [.mk (.yield (.mk (.name "y") (span 23))) (span 17)] false)) (span 0),
    .mk (.expression (.mk (.invoke "f" []) (span 28))) (span 28)]

/-- The report that a run ends with. -/
def Run.report? : EStateM.Result Stop State Outcome → Option Report
  | .error (.error e) _ => some e
  | _ => none

/-- The undeclared name is found at another place, in the same statements and calls. -/
theorem run_sameBut_failingCall :
    let outcome (offset : Nat) := (Evaluator.ofFuel .standard 6).run (failingCall offset)
      (.initial ⟨false, none, true⟩)
    SamePrograms (failingCall 0) (failingCall 40) ∧
      (Run.report? (outcome 0)).map (·.span) = some (some ⟨23, 24⟩) ∧
      (Run.report? (outcome 40)).map (·.span) = some (some ⟨63, 64⟩) ∧
      (Run.report? (outcome 0)).map (·.backtrace) = some (some [⟨"f()", ⟨28, 29⟩⟩]) ∧
      Run.SameBut (outcome 0) (outcome 40) := by
  intro outcome
  have hsame : SamePrograms (failingCall 0) (failingCall 40) := rfl
  refine ⟨hsame, by decide +kernel, by decide +kernel, by decide +kernel, ?_⟩
  exact Evaluator.run_sameBut ⟨false, none, true⟩ hsame 6

end BasicScript
