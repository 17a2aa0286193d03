import BasicScript.Value.Basic

/-! # Signals

How a statement ends: normally, or with a signal that travels outwards until a
construct it is aimed at takes it. Loops, `do` blocks and switches differ in
what they take.
-/

namespace BasicScript

/-- Transfer of control to an enclosing construct. -/
inductive Signal where
  | breakTo (label : Option String)
  | nextTo (label : Option String)
  /-- Leaves the sub with the value of its result slot. -/
  | leave
  | yield (value : Value)

/-- How a statement ended. -/
inductive Flow where
  | normal
  | signal (signal : Signal)

namespace Signal

/-- Whether a signal with one label is aimed at a construct with another. -/
def targets (aim label : Option String) : Bool :=
  match aim with
  | none => true
  | some wanted => label == some wanted

/-- Words for a signal in error messages. -/
def text : Signal → String
  | .breakTo none => "break"
  | .breakTo (some label) => "break " ++ label
  | .nextTo none => "next"
  | .nextTo (some label) => "next " ++ label
  | .leave => "return"
  | .yield _ => "yield"

end Signal

/-- What a loop does after its body. -/
inductive LoopStep where
  | again
  | stop
  | pass (signal : Signal)

/-- What a switch does after a case. -/
inductive CaseStep where
  | done
  /-- The cases that follow are tried. -/
  | onward
  | pass (signal : Signal)

namespace Flow

/-- What a loop makes of the end of its body. -/
def loopStep (label : Option String) : Flow → LoopStep
  | .normal => .again
  | .signal (.breakTo aim) =>
    if Signal.targets aim label then .stop else .pass (.breakTo aim)
  | .signal (.nextTo aim) =>
    if Signal.targets aim label then .again else .pass (.nextTo aim)
  | .signal s => .pass s

/-- What a `do` block makes of the end of its body. -/
def afterBlock (label : Option String) : Flow → Flow
  | .signal (.breakTo aim) =>
    if Signal.targets aim label then .normal else .signal (.breakTo aim)
  | .signal (.nextTo aim) =>
    if Signal.targets aim label then .normal else .signal (.nextTo aim)
  | flow => flow

/-- What a switch makes of the end of a case. It takes a `break` only if that names its label. -/
def caseStep (label : Option String) : Flow → CaseStep
  | .normal => .done
  | .signal (.nextTo aim) =>
    if Signal.targets aim label then .onward else .pass (.nextTo aim)
  | .signal (.breakTo (some aim)) =>
    if label = some aim then .done else .pass (.breakTo (some aim))
  | .signal s => .pass s

end Flow

end BasicScript
