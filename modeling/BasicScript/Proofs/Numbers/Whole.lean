import Mathlib.Algebra.Group.Nat.Defs
import BasicScript.Number.Arithmetic

/-! # Whole numbers

The numbers of an integral kind are those of its width. Moving up the ladder
keeps a number, and cutting down to a width of so many bits keeps it up to a
multiple of that power of two.
-/

namespace BasicScript

namespace NumericKind

variable {j k l : NumericKind}

theorem wider_comm (j k : NumericKind) : j.wider k = k.wider j := by
  cases j <;> cases k <;> rfl

theorem wider_assoc (j k l : NumericKind) : (j.wider k).wider l = j.wider (k.wider l) := by
  cases j <;> cases k <;> cases l <;> rfl

theorem wider_self (k : NumericKind) : k.wider k = k := ite_self _

theorem le_of_wider (h : j.wider k = k) : j ≤ k := by
  unfold wider at h
  split at h
  · assumption
  · cases h
    exact Nat.le_refl _

theorem le_wider_left (j k : NumericKind) : j ≤ j.wider k := by
  cases j <;> cases k <;> decide

theorem isIntegral_wider (hj : j.isIntegral = true) (hk : k.isIntegral = true) :
    (j.wider k).isIntegral = true := by
  unfold wider
  split <;> assumption

/-- The numbers of an integral kind lie below this one, and not below its opposite. -/
def reach : NumericKind → Int
  | .byte => Int.pow 2 7
  | .short => Int.pow 2 15
  | .int => Int.pow 2 31
  | .long | .float | .double => Int.pow 2 63

theorem reach_mono (h : j ≤ k) : j.reach ≤ k.reach := by
  cases j <;> cases k <;> first | decide | exact absurd h (by decide)

theorem isIntegral_of_le (h : j ≤ k) (hk : k.isIntegral = true) : j.isIntegral = true := by
  cases k <;> cases hk <;> cases j <;> first | rfl | exact absurd h (by decide)

theorem isIntegral_right (h : j.wider k = j) (hj : j.isIntegral = true) : k.isIntegral = true :=
  isIntegral_of_le (le_of_wider (wider_comm k j ▸ h)) hj

theorem le_long (h : k.isIntegral = true) : k ≤ .long := by
  cases k <;> first | decide | cases h

/-- Number of bits of an integral kind. -/
def width : NumericKind → Nat
  | .byte => 8
  | .short => 16
  | .int => 32
  | .long | .float | .double => 64

theorem two_pow_width (k : NumericKind) : ((2 ^ k.width : Nat) : Int) = 2 * k.reach := by
  cases k <;> rfl

theorem width_le (k : NumericKind) : k.width ≤ 64 := by
  cases k <;> decide

end NumericKind

namespace Number

variable {n x y : Number} {j k : NumericKind} {m : Int}

theorem toInt_reach (h : n.kind.isIntegral = true) :
    -n.kind.reach ≤ n.toInt ∧ n.toInt < n.kind.reach := by
  cases n with
  | byte x => exact ⟨x.le_toInt, x.toInt_lt⟩
  | short x => exact ⟨x.le_toInt, x.toInt_lt⟩
  | int x => exact ⟨x.le_toInt, x.toInt_lt⟩
  | long x => exact ⟨x.le_toInt, x.toInt_lt⟩
  | float x => cases h
  | double x => cases h

/-- Cutting down to a width takes the representative of the number in the range of the kind. -/
theorem toInt_ofInt_bmod (m : Int) (hk : k.isIntegral = true) :
    (ofInt m k).toInt = m.bmod (2 ^ k.width) := by
  cases k with
  | byte => exact Int8.toInt_ofInt
  | short => exact Int16.toInt_ofInt
  | int => exact Int32.toInt_ofInt
  | long => exact Int64.toInt_ofInt
  | float => cases hk
  | double => cases hk

theorem bmod_width (hmin : -k.reach ≤ m) (hmax : m < k.reach) : m.bmod (2 ^ k.width) = m := by
  have hwidth := k.two_pow_width
  apply Int.bmod_eq_of_le_mul_two <;> omega

theorem toInt_ofInt (hk : k.isIntegral = true) (hmin : -k.reach ≤ m) (hmax : m < k.reach) :
    (ofInt m k).toInt = m := by
  rw [toInt_ofInt_bmod m hk, bmod_width hmin hmax]

theorem toInt_one (hk : k.isIntegral = true) : (ofInt 1 k).toInt = 1 := by
  cases k <;> first | rfl | cases hk

/-- A sum of two numbers that leaves the range of the kind comes back in at the bottom. -/
theorem toInt_ofInt_past (hk : k.isIntegral = true) (hmin : k.reach ≤ m)
    (hmax : m < 3 * k.reach) : (ofInt m k).toInt = m - 2 * k.reach := by
  rw [toInt_ofInt_bmod m hk, ← Int.sub_bmod_right, k.two_pow_width]
  exact bmod_width (by omega) (by omega)

theorem convert_integral (n : Number) (hk : k.isIntegral = true) :
    n.convert k = ofInt n.toInt k := by
  cases k <;> first | rfl | cases hk

theorem ofInt_toInt (h : x.kind.isIntegral = true) : ofInt x.toInt x.kind = x := by
  rw [← convert_integral x h, convert_kind]

/-- A number of an integral kind is known by its kind and by the whole number that it denotes. -/
theorem ext_toInt (hx : x.kind.isIntegral = true) (hkind : x.kind = y.kind)
    (h : x.toInt = y.toInt) : x = y := by
  rw [← ofInt_toInt hx, h, hkind, ofInt_toInt (hkind ▸ hx)]

/-- A number goes through a word of 64 bits on its way to a narrower kind. -/
theorem ofInt_bmod (m : Int) (hk : k.isIntegral = true) :
    ofInt (m.bmod (2 ^ 64)) k = ofInt m k := by
  apply ext_toInt
  · rwa [kind_ofInt]
  · rw [kind_ofInt, kind_ofInt]
  · rw [toInt_ofInt_bmod _ hk, toInt_ofInt_bmod _ hk,
      Int.bmod_bmod_of_dvd (Nat.pow_dvd_pow 2 k.width_le)]

/-- Whole numbers keep their value on the way up. -/
theorem toInt_convert (h : n.kind ≤ k) (hk : k.isIntegral = true) :
    (n.convert k).toInt = n.toInt := by
  obtain ⟨hmin, hmax⟩ := toInt_reach (NumericKind.isIntegral_of_le h hk)
  have hreach := NumericKind.reach_mono h
  rw [convert_integral n hk]
  exact toInt_ofInt hk (by omega) (by omega)

/-- The way up to an integral kind may be taken in two steps. -/
theorem convert_convert (hk : n.kind ≤ k) (hj : k ≤ j) (hint : j.isIntegral = true) :
    (n.convert k).convert j = n.convert j := by
  rw [convert_integral _ hint, convert_integral _ hint,
    toInt_convert hk (NumericKind.isIntegral_of_le hj hint)]

/-- A number fits a word of 64 bits. -/
theorem toInt_word (hx : x.kind.isIntegral = true) : (Int64.ofInt x.toInt).toInt = x.toInt := by
  obtain ⟨hmin, hmax⟩ := toInt_reach hx
  have hreach := NumericKind.reach_mono (NumericKind.le_long hx)
  exact toInt_ofInt (k := .long) rfl (by omega) (by omega)

theorem align_whole (h : x.kind.wider y.kind = k) (hk : k.isIntegral = true) :
    align x y = .whole x.toInt y.toInt k := by
  unfold align
  rw [h]
  cases k <;> first | rfl | cases hk

theorem equal_whole (hx : x.kind.isIntegral = true) (hy : y.kind.isIntegral = true) :
    x.equal y = (x.toInt == y.toInt) := by
  simp only [equal, align_whole rfl (NumericKind.isIntegral_wider hx hy)]

end Number

end BasicScript
