import Mathlib.Data.List.Basic
import BasicScript.Proofs.Reports.Expression

/-! # Faithful reports

A failed execution of a statement has a path of departures, from the innermost
one out to the statement. The trace consists of the statements on the path, and
the backtrace of the calls on it with those that were active before.
-/

namespace BasicScript

/-- A suffix of a path either is its last departure or begins before that one. -/
theorem Departure.head_of_suffix {path outer : List Departure} {d last : Departure}
    (hsuffix : outer <:+ path ++ [last]) (hd : d ∈ outer.head?) :
    (d = last ∧ outer = [last]) ∨
      ∃ rest, outer = rest ++ [last] ∧ rest <:+ path ∧ d ∈ rest.head? := by
  obtain rfl | ⟨rest, rfl, hrest⟩ := List.suffix_concat_iff.mp hsuffix
  · cases hd
  · cases rest with
    | nil =>
      cases hd
      exact .inl ⟨rfl, rfl⟩
    | cons first rest => exact .inr ⟨first :: rest, rfl, hrest, hd⟩

/-- Where a departure began, those calls were active that were left from there on, and those around
all of them. -/
theorem Unwinding.active {parts : List Stmt} {around : List CallFrame}
    {path outer : List Departure} {d : Departure} (h : Unwinding parts around path)
    (hsuffix : outer <:+ path) (hd : d ∈ outer.head?) :
    d.start.calls.frames = Departure.frames outer ++ around := by
  induction h generalizing outer with
  | raised =>
    rw [List.suffix_nil.mp hsuffix] at hd
    cases hd
  | statement member active inner ih =>
    obtain ⟨rfl, rfl⟩ | ⟨rest, rfl, hrest, hfirst⟩ := Departure.head_of_suffix hsuffix hd
    · exact active
    · rw [Departure.frames_append_statement]
      exact ih hrest hfirst
  | call active inner ih =>
    obtain ⟨rfl, rfl⟩ | ⟨rest, rfl, hrest, hfirst⟩ := Departure.head_of_suffix hsuffix hd
    · exact active
    · rw [Departure.frames_append_call, List.append_assoc]
      exact ih hrest hfirst

/-- A report of an execution of a statement, read along the departures of the error. -/
structure Report.Faithful (e : Report) (stmt : Stmt) (s : State) (path : List Departure) :
    Prop where
  message : e.message = e.fault.message
  /-- Each departure is from a part of the next one, or from a call that it has made. -/
  nested : Unwinding [stmt] s.calls.frames path
  outermost : path.getLast? = some (.statement stmt s)
  trace : e.trace = path.filterMap Departure.entry?
  last : e.trace.getLast? = some ⟨stmt.kind.describe, stmt.span⟩
  /-- A backtrace is wanting if and only if no call was left. -/
  absent : e.backtrace = none ↔ ∀ d ∈ path, d.frame? = none
  /-- The calls that were left come before those that were active around the statement. -/
  backtrace : ∀ calls ∈ e.backtrace,
    Departure.frames path ≠ [] ∧ calls = Departure.frames path ++ s.calls.frames
  /-- Innermost in the path is the execution that raised the error, with all those calls active. -/
  raised : ∀ calls ∈ e.backtrace, ∀ d ∈ path.head?, d.start.calls.frames = calls

/-- An error that has noted its departures as usual is reported faithfully. -/
theorem Unwinding.faithful {stmt : Stmt} {s : State} {inner path : List Departure}
    (h : Unwinding stmt.kind.parts s.calls.frames inner)
    (hpath : path = inner ++ [.statement stmt s]) (fault : Fault) (span : Option Span) :
    (Report.mk fault span (path.flatMap Notes.usual)
      (Departure.backtrace? s.calls.frames path)).Faithful stmt s path := by
  have hnested : Unwinding [stmt] s.calls.frames path :=
    hpath ▸ .statement (List.mem_singleton_self stmt) rfl h
  have htrace : path.flatMap Notes.usual = path.filterMap Departure.entry? :=
    (List.filterMap_eq_flatMap_toList _ _).symm
  exact {
    message := rfl
    nested := hnested
    outermost := hpath ▸ List.getLast?_concat
    trace := htrace
    last := by
      show (path.flatMap Notes.usual).getLast? = _
      rw [htrace, hpath, List.filterMap_append]
      exact List.getLast?_concat
    absent := Departure.backtrace?_eq_none.trans List.filterMap_eq_nil_iff
    backtrace := fun calls hcalls => Departure.backtrace?_eq_some.mp hcalls
    raised := fun calls hcalls d hd => by
      rw [(Departure.backtrace?_eq_some.mp hcalls).2]
      exact hnested.active (List.suffix_refl path) hd }

namespace Evaluator

/-- Evaluators of every fuel report faithfully. -/
theorem noting_reporting (fuel : Nat) : Reporting fun ν => noting .standard ν fuel := by
  induction fuel with
  | zero =>
    exact ⟨fun _ => rfl, ⟨0, fun _ => rfl⟩, fun _ _ => .exhausted, fun _ _ => .exhausted,
      fun _ => .exhausted, fun _ _ => .exhausted⟩
  | succ fuel ih =>
    exact {
      library := fun _ => rfl
      rounds := ⟨fuel, fun _ => rfl⟩
      eval := ih.expr
      exec := fun stmt hmem => .statement hmem (ih.stmtKind stmt.kind)
      default := ih.defaultValue
      invoke := fun name args => ih.callPending name _ .nowhere }

/-- Whenever a statement fails, in any state, the report of the error is faithful to the departures
that the error has made; whatever is noted at departures is noted at those, in their order. -/
theorem exec_faithful (fuel : Nat) {stmt : Stmt} {s t : State} {e : Report}
    (h : (ofFuel .standard fuel).exec stmt s = .error (.error e) t) :
    ∃ path : List Departure, e.Faithful stmt s path ∧
      ∀ ν : Notes, (noting .standard ν fuel).exec stmt s =
        .error (.error { e with trace := path.flatMap ν }) t := by
  rw [← noting_usual] at h
  cases fuel with
  | zero => cases h
  | succ fuel =>
    rcases ((noting_reporting fuel).stmtKind stmt.kind).noting stmt s with
      ⟨a, u, -, hrun⟩ | ⟨u, hrun⟩ | ⟨fault, span, inner, u, hinner, -, hrun⟩
    · cases h.symm.trans (hrun .usual)
    · cases h.symm.trans (hrun .usual)
    · -- the report is the one that the usual notes have made of the path
      cases h.symm.trans (hrun .usual)
      exact ⟨_, hinner.faithful rfl fault span, hrun⟩

/-- The subs `sub inner() as int { yield 1 / 0 }` and `sub outer() as int { yield inner() }`. -/
def failingSubs : List Stmt :=
  let number (n : Int32) : Expr := .mk (.literal (.int n)) ⟨1, 2⟩
  [.mk (.sub (.mk "inner" [] (.prim .int)
      [.mk (.yield (.mk (.binary .divide (number 1) (number 0)) ⟨1, 2⟩)) ⟨1, 3⟩] false)) ⟨0, 4⟩,
    .mk (.sub (.mk "outer" [] (.prim .int)
      [.mk (.yield (.mk (.invoke "inner" []) ⟨5, 6⟩)) ⟨5, 7⟩] false)) ⟨4, 8⟩]

/-- The statement `{ outer() }`. -/
def callingOuter : Stmt :=
  .mk (.block [.mk (.expression (.mk (.invoke "outer" []) ⟨9, 10⟩)) ⟨9, 11⟩]) ⟨8, 12⟩

/-- The report of a run that fails. -/
def failure? {α : Type} : EStateM.Result Stop State α → Option Report
  | .error (.error e) _ => some e
  | _ => none

theorem failure?_eq_some {α : Type} {result : EStateM.Result Stop State α} {e : Report}
    (h : failure? result = some e) : ∃ t, result = .error (.error e) t := by
  rcases result with _ | ⟨e' | _, t⟩
  · cases h
  · cases h
    exact ⟨t, rfl⟩
  · cases h

/-- The division leaves two subs and four statements, one of them in each sub. -/
theorem exec_faithful_callingOuter :
    let s := ((ofFuel .standard 12).run failingSubs).state (.initial ⟨false, none, true⟩)
    ∃ e t path, (ofFuel .standard 12).exec callingOuter s = .error (.error e) t ∧
      e.Faithful callingOuter s path ∧ e.message = "division by zero" ∧
      e.trace = [⟨"yield", ⟨1, 3⟩⟩, ⟨"yield", ⟨5, 7⟩⟩, ⟨"expression", ⟨9, 11⟩⟩,
        ⟨"block", ⟨8, 12⟩⟩] ∧
      e.backtrace = some [⟨"inner()", ⟨5, 6⟩⟩, ⟨"outer()", ⟨9, 10⟩⟩] := by
  intro s
  have hreport : (failure? ((ofFuel .standard 12).exec callingOuter s)).map
      (fun e => (e.message, e.trace, e.backtrace)) =
        some ("division by zero", [⟨"yield", ⟨1, 3⟩⟩, ⟨"yield", ⟨5, 7⟩⟩, ⟨"expression", ⟨9, 11⟩⟩,
          ⟨"block", ⟨8, 12⟩⟩], some [⟨"inner()", ⟨5, 6⟩⟩, ⟨"outer()", ⟨9, 10⟩⟩]) := by
    decide +kernel
  obtain ⟨e, he, hfields⟩ := Option.map_eq_some_iff.mp hreport
  obtain ⟨hmessage, hrest⟩ := Prod.mk.inj hfields
  obtain ⟨htrace, hbacktrace⟩ := Prod.mk.inj hrest
  obtain ⟨t, hrun⟩ := failure?_eq_some he
  obtain ⟨path, hfaithful, -⟩ := exec_faithful 12 hrun
  exact ⟨e, t, path, hrun, hfaithful, hmessage, htrace, hbacktrace⟩

end Evaluator

end BasicScript
