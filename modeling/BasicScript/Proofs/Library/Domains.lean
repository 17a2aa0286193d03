import Mathlib.Algebra.Group.Nat.Defs
import BasicScript.Proofs.Law.Local
import BasicScript.Proofs.Types.Kinds

/-! # Domains of natives

Each native of the standard library matches its only argument against one
kind of value. Given one of the kind it gives a value of its return type; all
that can go wrong is that a number is no code point, that an array is too long
for its size to be counted, or that a value to print is a part of itself.
-/

namespace BasicScript

namespace Library

/-- The types that natives match their only argument against, by signature. -/
def domains : List (String × Ty) := [
  ("print(any)", .prim .any),
  ("println(any)", .prim .any),
  ("abs(int)", .prim .int),
  ("abs(double)", .prim .double),
  ("sqrt(double)", .prim .double),
  ("floor(double)", .prim .double),
  ("upper(string)", .prim .string),
  ("lower(string)", .prim .string),
  ("ord(char)", .prim .char),
  ("chr(int)", .prim .int),
  ("size(any[])", .array (.prim .any) none)]

/-- Whether these are exactly one argument, of the kind that the native matches on. -/
def expects (signature : String) (args : List Value) : Bool :=
  match domains.lookup signature, args with
  | some t, [v] => t.suits v
  | _, _ => false

/-- A native with something else in its place, wherever it gets what it does not expect. -/
def guard (signature : String) (native : Builtin)
    (other : Caller → List Value → Run Value) : Builtin where
  returns := native.returns
  function call args :=
    if expects signature args then native.function call args else other call args

/-- The standard library with all its natives guarded. -/
def guarded (other : Caller → List Value → Run Value) : Library :=
  ⟨standard.natives.map fun entry => (entry.1, guard entry.1 entry.2 other)⟩

/-- What natives make nothing of, although it is of the kind that they match on, and how they say
so. -/
def Refuses (signature : String) (v : Value) (s : State) (text : String) : Prop :=
  (signature = "chr(int)" ∧ ∃ n : Int32, v = .number (.int n) ∧ charOfCode? n.toInt = none ∧
    text = "chr: " ++ Int.repr n.toInt ++ " is not a code point") ∨
  (signature = "size(any[])" ∧ ∃ id, v = .array id ∧ 2 ^ 31 ≤ (s.store.block id).values.size ∧
    text = "size: array too large")

/-- What natives are to print that has no end. -/
def Unprintable (signature : String) (v : Value) (s : State) : Prop :=
  (signature = "print(any)" ∨ signature = "println(any)") ∧ ¬s.store.Acyclic v

/-- With an argument of the kind, a native gives a value of its return type, and prints at most; or
else it refuses the argument, or never ends, and leaves all alone. -/
def Answers (signature : String) (native : Builtin) (t : Ty) : Prop :=
  ∀ v, t.suits v = true → ∀ call s,
    (∃ w console, native.function call [v] s = .ok w { s with console := console } ∧
      native.returns.admits s.store w = true) ∨
    (∃ text, Refuses signature v s text ∧
      native.function call [v] s = .error (.error (.ofFault (.custom text))) s) ∨
    Unprintable signature v s ∧ native.function call [v] s = .error .outOfFuel s

section Kinds

variable {v : Value}

theorem exists_int (h : (Ty.prim .int).suits v = true) : ∃ n, v = .number (.int n) := by
  match v, h with
  | .number (.int n), _ => exact ⟨n, rfl⟩

theorem exists_double (h : (Ty.prim .double).suits v = true) : ∃ x, v = .number (.double x) := by
  match v, h with
  | .number (.double x), _ => exact ⟨x, rfl⟩

theorem exists_string (h : (Ty.prim .string).suits v = true) : ∃ text, v = .string text := by
  match v, h with
  | .string text, _ => exact ⟨text, rfl⟩

theorem exists_char (h : (Ty.prim .char).suits v = true) : ∃ c, v = .char c := by
  match v, h with
  | .char c, _ => exact ⟨c, rfl⟩

theorem exists_array {element : Ty} {size : Option Nat}
    (h : (Ty.array element size).suits v = true) : ∃ id, v = .array id := by
  match v, h with
  | .array id, _ => exact ⟨id, rfl⟩

end Kinds

section Answers

variable {signature : String}

theorem printing_answers (print : Console → String → Console)
    (h : signature = "print(any)" ∨ signature = "println(any)") :
    Answers signature ⟨.prim .none, unary (printing print)⟩ (.prim .any) := by
  intro v _ call s
  rcases Run.text_cases v s with ⟨-, htext⟩ | ⟨hends, htext⟩
  · exact .inl ⟨.none, _, Run.bind_ok htext _, rfl⟩
  · refine .inr (.inr ⟨⟨h, fun hacyclic => ?_⟩, Run.bind_error htext _⟩)
    rw [Store.textEnds_iff.mpr hacyclic] at hends
    cases hends

theorem absInt_answers : Answers signature ⟨.prim .int, unary absInt⟩ (.prim .int) := by
  intro v hv call s
  obtain ⟨n, rfl⟩ := exists_int hv
  exact .inl ⟨_, s.console, rfl, rfl⟩

theorem onDouble_answers (name : String) (f : Float → Float) :
    Answers signature ⟨.prim .double, unary (onDouble name f)⟩ (.prim .double) := by
  intro v hv call s
  obtain ⟨x, rfl⟩ := exists_double hv
  exact .inl ⟨_, s.console, rfl, rfl⟩

theorem onString_answers (name : String) (f : String → String) :
    Answers signature ⟨.prim .string, unary (onString name f)⟩ (.prim .string) := by
  intro v hv call s
  obtain ⟨text, rfl⟩ := exists_string hv
  exact .inl ⟨_, s.console, rfl, rfl⟩

theorem ord_answers : Answers signature ⟨.prim .int, unary ord⟩ (.prim .char) := by
  intro v hv call s
  obtain ⟨c, rfl⟩ := exists_char hv
  exact .inl ⟨_, s.console, rfl, rfl⟩

theorem chr_answers : Answers "chr(int)" ⟨.prim .char, unary chr⟩ (.prim .int) := by
  intro v hv call s
  obtain ⟨n, rfl⟩ := exists_int hv
  simp only [unary, chr]
  cases hcode : charOfCode? n.toInt with
  | none => exact .inr (.inl ⟨_, .inl ⟨rfl, n, rfl, hcode, rfl⟩, rfl⟩)
  | some c => exact .inl ⟨.char c, s.console, rfl, rfl⟩

theorem size_answers :
    Answers "size(any[])" ⟨.prim .int, unary size⟩ (.array (.prim .any) none) := by
  intro v hv call s
  obtain ⟨id, rfl⟩ := exists_array hv
  by_cases hsize : (s.store.block id).values.size < 2 ^ 31
  · exact .inl ⟨_, s.console, congrFun (if_pos hsize) s, rfl⟩
  · exact .inr (.inl ⟨_, .inr ⟨rfl, id, rfl, Nat.not_lt.mp hsize, rfl⟩,
      congrFun (if_neg hsize) s⟩)

end Answers

/-- A native has a signature of one type, and answers to values of the kind. -/
theorem standard_answers {signature : String} {native : Builtin}
    (h : standard.lookup signature = some native) :
    ∃ name t, domains.lookup signature = some t ∧ signature = signatureText name [t] ∧
      Answers signature native t := by
  obtain ⟨l₁, l₂, hnatives, -⟩ := List.lookup_eq_some_iff.mp h
  have hmem : (signature, native) ∈ standard.natives := by simp [hnatives]
  simp only [standard, List.mem_cons, Prod.mk.injEq, List.not_mem_nil, or_false] at hmem
  rcases hmem with ⟨rfl, rfl⟩ | ⟨rfl, rfl⟩ | ⟨rfl, rfl⟩ | ⟨rfl, rfl⟩ | ⟨rfl, rfl⟩ | ⟨rfl, rfl⟩ |
    ⟨rfl, rfl⟩ | ⟨rfl, rfl⟩ | ⟨rfl, rfl⟩ | ⟨rfl, rfl⟩ | ⟨rfl, rfl⟩
  · exact ⟨"print", _, rfl, by decide +kernel, printing_answers _ (.inl rfl)⟩
  · exact ⟨"println", _, rfl, by decide +kernel, printing_answers _ (.inr rfl)⟩
  · exact ⟨"abs", _, rfl, by decide +kernel, absInt_answers⟩
  · exact ⟨"abs", _, rfl, by decide +kernel, onDouble_answers _ _⟩
  · exact ⟨"sqrt", _, rfl, by decide +kernel, onDouble_answers _ _⟩
  · exact ⟨"floor", _, rfl, by decide +kernel, onDouble_answers _ _⟩
  · exact ⟨"upper", _, rfl, by decide +kernel, onString_answers _ _⟩
  · exact ⟨"lower", _, rfl, by decide +kernel, onString_answers _ _⟩
  · exact ⟨"ord", _, rfl, by decide +kernel, ord_answers⟩
  · exact ⟨"chr", _, rfl, by decide +kernel, chr_answers⟩
  · exact ⟨"size", _, rfl, by decide +kernel, size_answers⟩

/-- The guarded library has the natives of the standard one. -/
theorem guarded_lookup (other : Caller → List Value → Run Value) (signature : String) :
    (guarded other).lookup signature =
      (standard.lookup signature).map (guard signature · other) := by
  unfold lookup guarded
  induction standard.natives with
  | nil => rfl
  | cons entry natives ih =>
    obtain ⟨key, native⟩ := entry
    simp only [List.map_cons, List.lookup_cons]
    cases h : signature == key with
    | true =>
      rw [eq_of_beq h]
      rfl
    | false => exact ih

end Library

end BasicScript
