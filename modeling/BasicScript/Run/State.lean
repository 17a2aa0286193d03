import BasicScript.Error.Report
import BasicScript.Scope.Environment

/-! # The state of an interpreter

Everything that a statement can read or change: storage, scopes, active calls,
the types that `yield` is aimed at, and the text printed so far.
-/

namespace BasicScript

/-- Active calls, the innermost first, and how many there may be. -/
structure CallStack where
  frames : List CallFrame
  limit : Option Nat

namespace CallStack

/-- Adds a call; at the limit the call is refused. -/
def push (c : CallStack) (frame : CallFrame) : Except Fault CallStack :=
  match c.limit with
  | some n =>
    if n ≤ c.frames.length then .error (.stackOverflow n) else .ok ⟨frame :: c.frames, c.limit⟩
  | none => .ok ⟨frame :: c.frames, c.limit⟩

/-- Removes the innermost call. -/
def pop (c : CallStack) : CallStack := ⟨c.frames.tail, c.limit⟩

end CallStack

/-- Where printed text goes. -/
structure Console where
  /-- Whether text is thrown away. -/
  silent : Bool
  output : String

namespace Console

/-- Prints a text. -/
def print (c : Console) (text : String) : Console :=
  if c.silent then c else { c with output := c.output ++ text }

/-- Prints a text and ends the line. -/
def printLine (c : Console) (text : String) : Console := c.print (text ++ "\n")

/-- Forgets what was printed. -/
def clear (c : Console) : Console := { c with output := "" }

end Console

/-- Where the core declarations stand. -/
inductive CoreStatus where
  | disabled
  | pending
  | loaded
  deriving DecidableEq, Repr

/-- State of an interpreter. -/
structure State where
  store : Store
  env : Environment
  calls : CallStack
  /-- Return types of the subs being executed, the innermost first. -/
  returns : List Ty
  console : Console
  core : CoreStatus

/-- Settings of an interpreter, apart from its library. -/
structure Settings where
  core : Bool
  maxDepth : Option Nat
  silent : Bool

/-- State before the first program. -/
def State.initial (settings : Settings) : State where
  store := .fresh
  env := .fresh
  calls := ⟨[], settings.maxDepth⟩
  returns := []
  console := ⟨settings.silent, ""⟩
  core := if settings.core then .pending else .disabled

end BasicScript
