import Std.Data.String.ToNat
import Mathlib.Data.List.Basic
import BasicScript.Number.Reading
import BasicScript.Text.Blank

/-! # Decimal numbers

A whole number is read back from its digits. Neither digits nor signs are
blank, so there is nothing to trim, and a number of 64 bits is within the
bounds that reading imposes.
-/

namespace BasicScript

variable {c : Char} {cs : List Char}

theorem trimBlank_eq_self (h : ∀ c ∈ cs, isBlank c = false) : trimBlank cs = cs := by
  have hkept : ∀ ds : List Char, (∀ c ∈ ds, isBlank c = false) → ds.dropWhile isBlank = ds := by
    intro ds hds
    cases ds with
    | nil => rfl
    | cons d ds => rw [List.dropWhile_cons_of_neg (by simp [hds d List.mem_cons_self])]
  rw [trimBlank, hkept cs h, hkept _ (by simpa using h), List.reverse_reverse]

theorem isDigit_iff : c.isDigit = true ↔ '0' ≤ c ∧ c ≤ '9' := by
  rw [Char.isDigit, Bool.and_eq_true, decide_eq_true_eq, decide_eq_true_eq]
  rfl

theorem digit?_eq (h : c.isDigit = true) : digit? c = some (c.toNat - '0'.toNat) :=
  if_pos (isDigit_iff.mp h)

theorem isBlank_of_isDigit (h : c.isDigit = true) : isBlank c = false := by
  obtain ⟨hmin, hmax⟩ : 48 ≤ c.toNat ∧ c.toNat ≤ 57 := isDigit_iff.mp h
  simp only [isBlank, Bool.or_eq_false_iff, Bool.and_eq_false_iff, decide_eq_false_iff_not,
    beq_eq_false_iff_ne]
  omega

theorem readDigits_eq (value : Nat) (h : ∀ c ∈ cs, c.isDigit = true) :
    readDigits value cs = Nat.ofDigitChars 10 cs value := by
  induction cs generalizing value with
  | nil => rfl
  | cons c cs ih =>
    rw [readDigits, digit?_eq (h c List.mem_cons_self), Option.getD_some,
      ih _ fun d hd => h d (List.mem_cons_of_mem _ hd), Nat.ofDigitChars_cons]

/-- The digits of a number in base ten. -/
theorem isDigit_of_mem_repr {n : Nat} (h : c ∈ n.repr.toList) : c.isDigit = true :=
  Nat.isDigit_of_mem_toDigits (by decide) (Nat.le_refl _) (Nat.toList_repr ▸ h)

theorem readNat?_repr (n : Nat) : readNat? n.repr.toList = some n := by
  have hdigits : ∀ c ∈ n.repr.toList, c.isDigit = true := fun _ => isDigit_of_mem_repr
  have hall : n.repr.toList.all (fun c => (digit? c).isSome) = true :=
    List.all_eq_true.mpr fun c hc => by rw [digit?_eq (hdigits c hc), Option.isSome_some]
  have hne : n.repr.toList.isEmpty = false := by
    rw [Nat.toList_repr, List.isEmpty_eq_false_iff]
    exact Nat.toDigits_ne_nil
  rw [readNat?, hall, hne, if_neg (by decide), readDigits_eq 0 hdigits, Nat.toList_repr,
    Nat.ofDigitChars_ten_toDigits]

/-- A number without a sign starts with a digit. -/
theorem splitSign_repr (n : Nat) : splitSign n.repr.toList = (false, n.repr.toList) := by
  have hdigits : ∀ c ∈ n.repr.toList, c.isDigit = true := fun _ => isDigit_of_mem_repr
  unfold splitSign
  split
  · next heq => exact absurd (hdigits '+' (heq ▸ List.mem_cons_self)) (by decide)
  · next heq => exact absurd (hdigits '-' (heq ▸ List.mem_cons_self)) (by decide)
  · rfl

theorem readInt?_repr (n : Int) : readInt? n.repr.toList = some n := by
  cases n with
  | ofNat n =>
    show readInt? n.repr.toList = _
    simp only [readInt?, splitSign_repr, readNat?_repr]
    rfl
  | negSucc n =>
    have htext : (Int.negSucc n).repr.toList = '-' :: (n + 1).repr.toList := by
      simp [Int.repr, String.toList_append]
    simp only [htext, readInt?, splitSign, readNat?_repr]
    rfl

theorem isBlank_of_mem_repr {n : Int} (h : c ∈ n.repr.toList) : isBlank c = false := by
  cases n with
  | ofNat n => exact isBlank_of_isDigit (isDigit_of_mem_repr (n := n) h)
  | negSucc n =>
    have hmem : c = '-' ∨ c ∈ (n + 1).repr.toList := by
      simpa [Int.repr, String.toList_append] using h
    rcases hmem with rfl | hmem
    · decide
    · exact isBlank_of_isDigit (isDigit_of_mem_repr hmem)

/-- What is written of a number of 64 bits is read back as that number. -/
theorem readInt64?_repr {n : Int} (hmin : -Int.pow 2 63 ≤ n) (hmax : n < Int.pow 2 63) :
    readInt64? (trimBlank n.repr.toList) = some n := by
  rw [trimBlank_eq_self fun _ => isBlank_of_mem_repr, readInt64?, readInt?_repr, Option.filter_some]
  exact if_pos (decide_eq_true ⟨hmin, hmax⟩)

end BasicScript
