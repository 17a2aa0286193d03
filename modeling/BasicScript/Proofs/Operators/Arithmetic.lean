import BasicScript.Library.Standard
import BasicScript.Proofs.Control.Arrival
import BasicScript.Proofs.Numbers.Whole

/-! # Arithmetic of whole numbers

Whole numbers of all kinds go through words of 64 bits. What comes out is the
exact result up to a multiple of two to the width of the wider kind, also where
the word has wrapped around, so that quotient and remainder make up the
dividend again.
-/

namespace BasicScript

namespace ArithOp

/-- Exact result on whole numbers: a quotient is truncated toward zero, and a remainder has the
sign of the dividend. -/
def exact : ArithOp → Int → Int → Int
  | .add, x, y => x + y
  | .subtract, x, y => x - y
  | .multiply, x, y => x * y
  | .divide, x, y => x.tdiv y
  | .modulus, x, y => x.tmod y

/-- Whether the right operand is a divisor. -/
def divides : ArithOp → Bool
  | .divide | .modulus => true
  | _ => false

variable {op : ArithOp} {x y z : Int64}

theorem onWord?_eq_none_iff : op.onWord? x y = none ↔ op.divides = true ∧ y = 0 := by
  cases op <;> simp [onWord?, divides]

/-- A word is exact up to a multiple of two to the power of 64. -/
theorem toInt_onWord? (h : op.onWord? x y = some z) :
    z.toInt = (op.exact x.toInt y.toInt).bmod (2 ^ 64) := by
  cases op with
  | add =>
    cases h
    exact Int64.toInt_add x y
  | subtract =>
    cases h
    exact Int64.toInt_sub x y
  | multiply =>
    cases h
    exact Int64.toInt_mul x y
  | divide =>
    obtain ⟨-, rfl⟩ : y ≠ 0 ∧ x / y = z := by simpa [onWord?] using h
    exact Int64.toInt_div x y
  | modulus =>
    obtain ⟨-, rfl⟩ : y ≠ 0 ∧ x % y = z := by simpa [onWord?] using h
    -- a remainder is no further from zero than its dividend, so the word has not wrapped around
    rw [exact, ← Int64.toInt_mod]
    exact (Int64.toInt_bmod (x % y)).symm

end ArithOp

namespace Number

variable {a b : Number}

theorem word_eq_zero_iff (hb : b.kind.isIntegral = true) :
    Int64.ofInt b.toInt = 0 ↔ b.toInt = 0 := by
  rw [← Int64.toInt_inj, toInt_word hb, Int64.toInt_zero]

/-- The way through words is the exact result in the wider kind. -/
theorem arith?_whole (op : ArithOp) (ha : a.kind.isIntegral = true)
    (hb : b.kind.isIntegral = true) :
    arith? op a b = if op.divides = true ∧ b.toInt = 0 then none
      else some (ofInt (op.exact a.toInt b.toInt) (a.kind.wider b.kind)) := by
  have hk := NumericKind.isIntegral_wider ha hb
  have hnone : op.onWord? (.ofInt a.toInt) (.ofInt b.toInt) = none ↔
      op.divides = true ∧ b.toInt = 0 := by
    rw [ArithOp.onWord?_eq_none_iff, word_eq_zero_iff hb]
  simp only [arith?, align_whole rfl hk]
  cases hword : op.onWord? (.ofInt a.toInt) (.ofInt b.toInt) with
  | none =>
    rw [if_pos (hnone.mp hword), Option.map_none]
  | some z =>
    have hzero : ¬(op.divides = true ∧ b.toInt = 0) := by
      rw [← hnone, hword]
      exact nofun
    rw [if_neg hzero, Option.map_some, ArithOp.toInt_onWord? hword, toInt_word ha, toInt_word hb,
      ofInt_bmod _ hk]

/-- Dividend and remainder stay in the range of the kind, so the dividend comes back even where the
quotient has left it. -/
theorem remade (ha : a.kind.isIntegral = true) (hb : b.kind.isIntegral = true) {k : NumericKind}
    (hk : a.kind.wider b.kind = k) {q p r t : Number} (hq : q = ofInt (a.toInt.tdiv b.toInt) k)
    (hp : p = ofInt (q.toInt * b.toInt) k) (hr : r = ofInt (a.toInt.tmod b.toInt) k)
    (ht : t = ofInt (p.toInt + r.toInt) k) : t.toInt = a.toInt := by
  have hint : k.isIntegral = true := hk ▸ NumericKind.isIntegral_wider ha hb
  obtain ⟨hmin, hmax⟩ := toInt_reach ha
  have hreach := NumericKind.reach_mono (hk ▸ NumericKind.le_wider_left a.kind b.kind)
  calc t.toInt
    _ = (p.toInt + r.toInt).bmod (2 ^ k.width) := by rw [ht, toInt_ofInt_bmod _ hint]
    _ = (a.toInt.tdiv b.toInt * b.toInt + a.toInt.tmod b.toInt).bmod (2 ^ k.width) := by
      rw [hp, hq, hr, toInt_ofInt_bmod _ hint, toInt_ofInt_bmod _ hint, toInt_ofInt_bmod _ hint,
        Int.bmod_mul_bmod, ← Int.add_bmod]
    _ = a.toInt.bmod (2 ^ k.width) := by rw [Int.mul_comm, Int.mul_tdiv_add_tmod]
    _ = a.toInt := bmod_width (by omega) (by omega)

end Number

namespace BinaryOp

variable {op : BinaryOp} {arith : ArithOp} {a b : Number}

theorem apply_whole (σ : Store) (hop : op.arith? = some arith) (ha : a.kind.isIntegral = true)
    (hb : b.kind.isIntegral = true) : op.apply σ (.number a) (.number b) =
      if arith.divides = true ∧ b.toInt = 0 then .error .divisionByZero
      else .ok (.number (.ofInt (arith.exact a.toInt b.toInt) (a.kind.wider b.kind))) := by
  have happly : op.apply σ (.number a) (.number b) =
      op.arithmetic σ arith (.number a) (.number b) := by
    cases op <;> cases hop <;> rfl
  rw [happly, arithmetic, Number.arith?_whole arith ha hb]
  by_cases hzero : arith.divides = true ∧ b.toInt = 0
  · simp only [if_pos hzero]
  · simp only [if_neg hzero]

theorem add_whole (σ : Store) (ha : a.kind.isIntegral = true) (hb : b.kind.isIntegral = true) :
    BinaryOp.add.apply σ (.number a) (.number b) =
      .ok (.number (.ofInt (a.toInt + b.toInt) (a.kind.wider b.kind))) :=
  (apply_whole σ rfl ha hb).trans (if_neg nofun)

end BinaryOp

namespace Evaluator

open Run (Arrives)

variable {library : Library} {s : State} {a b : Number} {left right : Expr}

theorem arrives_arithmetic (op : BinaryOp) {arith : ArithOp} (hop : op.arith? = some arith)
    (ha : a.kind.isIntegral = true) (hb : b.kind.isIntegral = true)
    (hzero : ¬(arith.divides = true ∧ b.toInt = 0))
    (hleft : Arrives (fun fuel => (ofFuel library fuel).eval none left) s (.number a) s)
    (hright : Arrives (fun fuel => (ofFuel library fuel).eval none right) s (.number b) s) :
    Arrives (fun fuel => (ofFuel library fuel).eval none (.generated (.binary op left right))) s
      (.number (.ofInt (arith.exact a.toInt b.toInt) (a.kind.wider b.kind))) s := by
  refine arrives_numbers ?_ hleft hright ?_ none .nowhere
  · intro r
    cases op <;> cases hop <;> rfl
  · rw [BinaryOp.apply_whole s.store hop ha hb, if_neg hzero]

/-- The expression `(a / b) * b + a % b == a`. -/
def remaking (a b : Expr) : Expr :=
  .generated (.binary .equal
    (.generated (.binary .add
      (.generated (.binary .multiply (.generated (.binary .divide a b)) b))
      (.generated (.binary .modulus a b))))
    a)

theorem arrives_remaking (ha : a.kind.isIntegral = true) (hb : b.kind.isIntegral = true)
    (hzero : b.toInt ≠ 0) (hint : Option Ty)
    (hleft : Arrives (fun fuel => (ofFuel library fuel).eval none left) s (.number a) s)
    (hright : Arrives (fun fuel => (ofFuel library fuel).eval none right) s (.number b) s) :
    Arrives (fun fuel => (ofFuel library fuel).eval hint (remaking left right)) s (.bool true)
      s := by
  have hk := NumericKind.isIntegral_wider ha hb
  have hquotient := arrives_arithmetic .divide rfl ha hb (fun h => hzero h.2) hleft hright
  have hproduct := arrives_arithmetic .multiply rfl (by rwa [Number.kind_ofInt]) hb nofun
    hquotient hright
  have hrest := arrives_arithmetic .modulus rfl ha hb (fun h => hzero h.2) hleft hright
  simp only [Number.kind_ofInt, NumericKind.wider_assoc, NumericKind.wider_self] at hproduct
  have hsum := arrives_arithmetic .add rfl (by rwa [Number.kind_ofInt])
    (by rwa [Number.kind_ofInt]) nofun hproduct hrest
  simp only [Number.kind_ofInt, NumericKind.wider_self] at hsum
  refine arrives_numbers (fun _ => rfl) hsum hleft ?_ hint .nowhere
  show Except.ok (Value.bool (Number.equal _ a)) = _
  rw [Number.equal_whole (by rwa [Number.kind_ofInt]) ha]
  simp only [ArithOp.exact]
  rw [Number.remade ha hb rfl rfl rfl rfl rfl, beq_self_eq_true]

/-- Arithmetic of whole numbers is exact up to a multiple of two to the power of the width: the
result has the wider of the two kinds and stands for the one number in the range of that kind that
differs from the exact result by such a multiple. There is none exactly for a zero divisor. So
quotient and remainder make up the dividend in the language, for every divisor but zero. -/
theorem arithmetic_wraps (library : Library) {a b : Number} (ha : a.kind.isIntegral = true)
    (hb : b.kind.isIntegral = true) :
    (∀ (σ : Store) (op : BinaryOp) (arith : ArithOp), op.arith? = some arith →
      (arith.divides = true ∧ b.toInt = 0 →
        op.apply σ (.number a) (.number b) = .error .divisionByZero) ∧
      (¬(arith.divides = true ∧ b.toInt = 0) → ∃ n,
        op.apply σ (.number a) (.number b) = .ok (.number n) ∧ n.kind = a.kind.wider b.kind ∧
          n.toInt = (arith.exact a.toInt b.toInt).bmod (2 ^ n.kind.width))) ∧
    (b.toInt ≠ 0 → ∀ (s : State) (hint : Option Ty) (left right : Expr),
      Arrives (fun fuel => (ofFuel library fuel).eval none left) s (.number a) s →
      Arrives (fun fuel => (ofFuel library fuel).eval none right) s (.number b) s →
        Arrives (fun fuel => (ofFuel library fuel).eval hint (remaking left right)) s
          (.bool true) s) := by
  constructor
  · intro σ op arith hop
    rw [BinaryOp.apply_whole σ hop ha hb]
    constructor
    · intro hzero
      rw [if_pos hzero]
    · intro hzero
      rw [if_neg hzero]
      refine ⟨_, rfl, Number.kind_ofInt _ _, ?_⟩
      rw [Number.kind_ofInt, Number.toInt_ofInt_bmod _ (NumericKind.isIntegral_wider ha hb)]
  · intro hzero s hint left right hleft hright
    exact arrives_remaking ha hb hzero hint hleft hright

/-- The least `short` divided by the `byte` -1 comes back as itself, without a remainder. -/
theorem arithmetic_wraps_leastByMinusOne :
    let least : Expr := .generated (.literal (.short (-32768)))
    let minusOne : Expr := .generated (.literal (.byte (-1)))
    let s := State.initial ⟨false, none, true⟩
    (∃ n, BinaryOp.divide.apply s.store (.number (.short (-32768))) (.number (.byte (-1))) =
      .ok (.number n) ∧ n.kind = .short ∧ n.toInt = -32768) ∧
    Arrives (fun fuel => (ofFuel .standard fuel).eval none (remaking least minusOne)) s
      (.bool true) s := by
  intro least minusOne s
  have hwraps := arithmetic_wraps .standard (a := .short (-32768)) (b := .byte (-1)) rfl rfl
  obtain ⟨n, hn, hkind, hexact⟩ := (hwraps.1 s.store .divide .divide rfl).2 (by decide)
  have hnumber : n.toInt = -32768 := by
    rw [hexact, hkind]
    decide
  exact ⟨⟨n, hn, hkind, hnumber⟩, hwraps.2 (by decide) s none least minusOne
    (arrives_literal _ _ _ _ _) (arrives_literal _ _ _ _ _)⟩

end Evaluator

end BasicScript
