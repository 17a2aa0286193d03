import BasicScript.Error.Fault

/-! # Error reports

An error on its way out collects the span of the node that failed, the
statements it left, and the calls that were active when it left the first sub.
-/

namespace BasicScript

/-- A statement that an error has left. -/
structure TraceEntry where
  what : String
  span : Span
  deriving DecidableEq, Repr

/-- A call by the signature of the overload and the place of the call. -/
structure CallFrame where
  signature : String
  span : Span
  deriving DecidableEq, Repr

/-- An error with all that it has collected. -/
structure Report where
  fault : Fault
  /-- The innermost node that failed. -/
  span : Option Span
  /-- Statements left so far, the innermost first. -/
  trace : List TraceEntry
  /-- Calls that were active, the innermost first. -/
  backtrace : Option (List CallFrame)

/-- Lines for the calls of a backtrace, numbered from `index` on. -/
def frameLines (index : Nat) : List CallFrame → String
  | [] => ""
  | frame :: rest =>
    "  " ++ Nat.repr index ++ ": " ++ frame.signature ++ " at " ++ frame.span.text ++ "\n"
      ++ frameLines (index + 1) rest

/-- Text of a backtrace. -/
def backtraceText (frames : List CallFrame) : String :=
  if frames.isEmpty then "" else "call stack:\n" ++ frameLines 0 frames

namespace Report

/-- An error that has collected nothing yet. -/
def ofFault (f : Fault) : Report := ⟨f, none, [], none⟩

/-- Notes a span unless there is one. -/
def orSpan (e : Report) (span : Span) : Report := { e with span := some (e.span.getD span) }

/-- Notes a statement that the error leaves. -/
def traced (e : Report) (what : String) (span : Span) : Report :=
  { e with trace := e.trace ++ [⟨what, span⟩] }

/-- Notes the active calls unless some are noted or there are none. -/
def withBacktrace (e : Report) (frames : List CallFrame) : Report :=
  if e.backtrace.isNone && !frames.isEmpty then { e with backtrace := some frames } else e

/-- Wording of the error. -/
def message (e : Report) : String := e.fault.message

/-- The whole report. -/
def text (e : Report) : String :=
  e.message
    ++ (match e.span with | some s => " at " ++ s.text | none => "")
    ++ String.join (e.trace.map fun t => "\n  in " ++ t.what ++ " at " ++ t.span.text)
    ++ (match e.backtrace with | some frames => "\n" ++ backtraceText frames | none => "")

end Report

end BasicScript
