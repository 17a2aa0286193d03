import BasicScript.Text.CaseTable

/-! # Letter case

Lower and upper case of whole texts. A character may become several, and a
capital sigma at the end of a word takes its final form: after a letter and
not before one, characters such as accents and apostrophes apart.
-/

namespace BasicScript

namespace CaseRun

/-- Image of a code point. -/
def map? (r : CaseRun) (n : Nat) : Option Nat :=
  if r.first ≤ n ∧ n ≤ r.last ∧ (n - r.first) % r.step = 0 then some (n + r.shift).toNat else none

end CaseRun

/-- Image of a code point beyond ASCII under a table of runs and one of expansions. -/
def mapCase (runs : List CaseRun) (expansions : List (Nat × List Nat)) (c : Char) : List Char :=
  match runs.findSome? (·.map? c.toNat) with
  | some n => [Char.ofNat n]
  | none =>
    match expansions.lookup c.toNat with
    | some ns => ns.map Char.ofNat
    | none => [c]

/-- Lower case of a character that stands alone. -/
def lowerChar (c : Char) : List Char :=
  if c.toNat < 128 then [c.toLower] else mapCase lowerRuns lowerExpansions c

/-- Upper case of a character. -/
def upperChar (c : Char) : List Char :=
  if c.toNat < 128 then [c.toUpper] else mapCase upperRuns upperExpansions c

/-- Membership in a table of ranges. -/
def inRanges (ranges : List (Nat × Nat)) (c : Char) : Bool :=
  ranges.any fun (first, last) => first ≤ c.toNat && c.toNat ≤ last

/-- Whether the first character that counts is a letter with case. -/
def letterFollows (cs : List Char) : Bool :=
  match cs.dropWhile (inRanges ignorableRanges) with
  | [] => false
  | c :: _ => inRanges casedRanges c

/-- Lower case of the characters that follow those of `before`, which stand in reverse order. -/
def lowerAfter (before : List Char) : List Char → List Char
  | [] => []
  | c :: rest =>
    let image :=
      if c = 'Σ' then [if letterFollows before && !letterFollows rest then 'ς' else 'σ']
      else lowerChar c
    image ++ lowerAfter (c :: before) rest

/-- Lower case of a text. -/
def lowerCase (s : String) : String := String.ofList (lowerAfter [] s.toList)

/-- Upper case of a text. -/
def upperCase (s : String) : String := String.ofList (s.toList.flatMap upperChar)

end BasicScript
