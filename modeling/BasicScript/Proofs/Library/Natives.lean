import BasicScript.Library.Standard
import BasicScript.Proofs.Frame.Basic

/-! # Natives of the standard library

None of them calls a sub or touches storage and scopes. A native gives a value
that leads nowhere, perhaps after it has printed, or it fails and leaves the
state alone.
-/

namespace BasicScript

/-- Whether a value is neither missing nor made up of others. -/
def Value.isPlain : Value → Bool
  | .empty | .array _ | .data _ _ | .entry _ _ _ _ => false
  | _ => true

/-- What natives do: print at most, and give a plain value or fail. -/
def Run.Plain (x : Run Value) : Prop :=
  ∀ s, (∃ v console, x s = .ok v { s with console := console } ∧ v.isPlain = true) ∨
    ∃ e, x s = .error e s

namespace Run.Plain

theorem pure {v : Value} (hv : v.isPlain = true) : (Pure.pure v : Run Value).Plain :=
  fun s => .inl ⟨v, s.console, rfl, hv⟩

theorem fail (f : Fault) : (Run.fail f : Run Value).Plain := fun _ => .inr ⟨_, rfl⟩

theorem unexpected (name : String) (v : Value) : (Library.unexpected name v).Plain :=
  fun _ => .inr ⟨_, rfl⟩

theorem readBind {α : Type} {f : State → α} {g : α → Run Value} (h : ∀ a, (g a).Plain) :
    (Run.read f >>= g).Plain := fun s => h (f s) s

theorem textBind {v : Value} {g : String → Run Value} (h : ∀ text, (g text).Plain) :
    (Run.text v >>= g).Plain := by
  intro s
  rcases text_cases v s with ⟨-, htext⟩ | ⟨-, hstop⟩
  · rw [bind_ok htext]
    exact h _ s
  · exact .inr ⟨_, bind_error hstop g⟩

end Run.Plain

namespace Library

/-- The library has a function of the signature whose results are of the type. -/
def Provides (l : Library) (signature : String) (returns : Ty) : Prop :=
  ∃ native, l.lookup signature = some native ∧ native.returns = returns

theorem printing_plain (print : Console → String → Console) (v : Value) :
    (printing print v).Plain :=
  .textBind fun _ _ => .inl ⟨.none, _, rfl, rfl⟩

theorem absInt_plain (v : Value) : (absInt v).Plain := by
  unfold absInt
  split
  · exact .pure rfl
  · exact .unexpected _ v

theorem onDouble_plain (name : String) (f : Float → Float) (v : Value) :
    (onDouble name f v).Plain := by
  unfold onDouble
  split
  · exact .pure rfl
  · exact .unexpected name v

theorem onString_plain (name : String) (f : String → String) (v : Value) :
    (onString name f v).Plain := by
  unfold onString
  split
  · exact .pure rfl
  · exact .unexpected name v

theorem ord_plain (v : Value) : (ord v).Plain := by
  unfold ord
  split
  · exact .pure rfl
  · exact .unexpected _ v

theorem chr_plain (v : Value) : (chr v).Plain := by
  unfold chr
  split
  · split
    · exact .pure rfl
    · exact .fail _
  · exact .unexpected _ v

theorem size_plain (v : Value) : (size v).Plain := by
  unfold size
  split
  · refine .readBind fun n => ?_
    split
    · exact .pure rfl
    · exact .fail _
  · exact .unexpected _ v

theorem standard_lookup {signature : String} {native : Builtin}
    (h : standard.lookup signature = some native) :
    native ∈ standard.natives.map Prod.snd := by
  obtain ⟨l₁, l₂, hnatives, -⟩ := List.lookup_eq_some_iff.mp h
  rw [hnatives]
  simp

/-- Every native applies one of a few functions to its only argument. -/
theorem standard_unary {P : (Value → Run Value) → Prop} {signature : String} {native : Builtin}
    (h : standard.lookup signature = some native) (hprinting : ∀ print, P (printing print))
    (habs : P absInt) (hdouble : ∀ name f, P (onDouble name f))
    (hstring : ∀ name f, P (onString name f)) (hord : P ord) (hchr : P chr) (hsize : P size) :
    ∃ f, native.function = unary f ∧ P f := by
  have hmem := standard_lookup h
  simp only [standard, List.map_cons, List.map_nil, List.mem_cons, List.not_mem_nil,
    or_false] at hmem
  rcases hmem with rfl | rfl | rfl | rfl | rfl | rfl | rfl | rfl | rfl | rfl | rfl
  · exact ⟨_, rfl, hprinting _⟩
  · exact ⟨_, rfl, hprinting _⟩
  · exact ⟨_, rfl, habs⟩
  · exact ⟨_, rfl, hdouble _ _⟩
  · exact ⟨_, rfl, hdouble _ _⟩
  · exact ⟨_, rfl, hdouble _ _⟩
  · exact ⟨_, rfl, hstring _ _⟩
  · exact ⟨_, rfl, hstring _ _⟩
  · exact ⟨_, rfl, hord⟩
  · exact ⟨_, rfl, hchr⟩
  · exact ⟨_, rfl, hsize⟩

/-- What holds of each of the functions, and of the refusal of other numbers of arguments, holds
of what a native does; it depends on its arguments alone, and not on how subs are called. -/
theorem standard_cases {P : Run Value → Prop} {signature : String} {native : Builtin}
    (h : standard.lookup signature = some native)
    (hcount : P (Run.fail (.custom "expected exactly one argument")))
    (hprinting : ∀ print v, P (printing print v)) (habs : ∀ v, P (absInt v))
    (hdouble : ∀ name f v, P (onDouble name f v)) (hstring : ∀ name f v, P (onString name f v))
    (hord : ∀ v, P (ord v)) (hchr : ∀ v, P (chr v)) (hsize : ∀ v, P (size v)) :
    ∃ f : List Value → Run Value, (native.function = fun _ => f) ∧ ∀ args, P (f args) := by
  obtain ⟨f, hf, hall⟩ := standard_unary (P := fun f => ∀ v, P (f v)) h hprinting habs hdouble
    hstring hord hchr hsize
  refine ⟨unary f fun _ _ => Run.exhausted, hf, fun args => ?_⟩
  unfold unary
  split
  · exact hall _
  · exact hcount

theorem standard_plain {signature : String} {native : Builtin}
    (h : standard.lookup signature = some native) :
    ∃ f : List Value → Run Value, (native.function = fun _ => f) ∧ ∀ args, (f args).Plain :=
  standard_cases h (.fail _) printing_plain absInt_plain onDouble_plain onString_plain ord_plain
    chr_plain size_plain

end Library

end BasicScript
