import BasicScript.Operators.Binary
import BasicScript.Proofs.Numbers.Whole

/-! # Order of values

Whole numbers of all kinds, characters and strings each stand in one order,
which the four ordering operators and equality read in the same way. Other
values have no place in an order, and to compare them by one is a fault.
-/

namespace BasicScript

namespace Value

/-- Values that stand in one order: whole numbers of any kinds, characters, or strings. -/
inductive Comparable : Value → Value → Prop where
  | numbers {a b : Number} : a.kind.isIntegral = true → b.kind.isIntegral = true →
      Comparable (.number a) (.number b)
  | chars (a b : Char) : Comparable (.char a) (.char b)
  | strings (a b : String) : Comparable (.string a) (.string b)

/-- Place of a value with regard to another that stands in the same order. -/
def order : Value → Value → Ordering
  | .number a, .number b => compare a.toInt b.toInt
  | .char a, .char b => compare a.toNat b.toNat
  | .string a, .string b => compare a b
  | _, _ => .eq

/-- The value is not a number with a fraction. -/
def FractionFree (v : Value) : Prop :=
  ∀ k, v.kind? = some k → k.isIntegral = true

namespace Comparable

variable {u v w : Value}

theorem symm (h : v.Comparable w) : w.Comparable v := by
  cases h with
  | numbers ha hb => exact .numbers hb ha
  | chars a b => exact .chars b a
  | strings a b => exact .strings b a

theorem trans (huv : u.Comparable v) (hvw : v.Comparable w) : u.Comparable w := by
  cases huv with
  | numbers ha hb =>
    cases hvw with
    | numbers _ hc => exact .numbers ha hc
  | chars a b =>
    cases hvw with
    | chars _ c => exact .chars a c
  | strings a b =>
    cases hvw with
    | strings _ c => exact .strings a c

theorem order_swap (h : v.Comparable w) : w.order v = (v.order w).swap := by
  cases h <;> simp only [order] <;> exact Std.OrientedCmp.eq_swap

/-- Equality finds the same place as the order. -/
theorem equal (h : v.Comparable w) (σ : Store) : σ.equal v w = (v.order w).isEq := by
  rw [Bool.eq_iff_iff, Ordering.isEq_iff_eq_eq]
  cases h with
  | @numbers a b ha hb =>
    show a.equal b = true ↔ compare a.toInt b.toInt = .eq
    rw [Number.equal_whole ha hb, beq_iff_eq, Std.LawfulEqCmp.compare_eq_iff_eq]
  | chars a b =>
    show (a == b) = true ↔ compare a.toNat b.toNat = .eq
    rw [beq_iff_eq, Std.LawfulEqCmp.compare_eq_iff_eq, Char.toNat_inj]
  | strings a b =>
    show (a == b) = true ↔ compare a b = .eq
    rw [beq_iff_eq, Std.LawfulEqCmp.compare_eq_iff_eq]

theorem order_trans (huv : u.Comparable v) (hvw : v.Comparable w) (hlt : u.order v = .lt)
    (hlt' : v.order w = .lt) : u.order w = .lt := by
  cases huv <;> cases hvw <;> simp only [order] at hlt hlt' ⊢ <;>
    exact Std.TransCmp.lt_trans hlt hlt'

end Comparable

end Value

namespace BinaryOp

variable {op : BinaryOp} {v w : Value} {x y : Number}

theorem compare_comparable (σ : Store) (op : BinaryOp) (h : v.Comparable w) :
    op.compare σ v w = .ok (some (v.order w)) := by
  cases h with
  | @numbers a b ha hb =>
    show Except.ok (a.compare? b) = _
    simp only [Number.compare?, Number.align_whole rfl (NumericKind.isIntegral_wider ha hb),
      Value.order]
  | chars a b => rfl
  | strings a b => rfl

theorem ordered_comparable (σ : Store) (op : BinaryOp) (h : v.Comparable w)
    (holds : Ordering → Bool) : op.ordered σ holds v w = .ok (.bool (holds (v.order w))) := by
  rw [ordered, compare_comparable σ op h]
  rfl

theorem apply_less (σ : Store) (h : v.Comparable w) :
    BinaryOp.less.apply σ v w = .ok (.bool (v.order w).isLT) :=
  ordered_comparable σ .less h Ordering.isLT

theorem apply_less_iff (σ : Store) (h : v.Comparable w) :
    BinaryOp.less.apply σ v w = .ok (.bool true) ↔ v.order w = .lt := by
  rw [apply_less σ h]
  simp

theorem less_whole (σ : Store) (hx : x.kind.isIntegral = true) (hy : y.kind.isIntegral = true) :
    BinaryOp.less.apply σ (.number x) (.number y) =
      .ok (.bool (decide (x.toInt < y.toInt))) := by
  have hless : (Ord.compare x.toInt y.toInt).isLT = decide (x.toInt < y.toInt) := by
    rw [Bool.eq_iff_iff, Ordering.isLT_iff_eq_lt, Int.compare_eq_lt, decide_eq_true_iff]
  rw [apply_less σ (.numbers hx hy), ← hless]
  rfl

/-- The fault is with the left operand if that has no order at all, and else with the right one. -/
theorem compare_incomparable (σ : Store) (op : BinaryOp) (hv : v.FractionFree)
    (hw : w.FractionFree) (h : ¬v.Comparable w) :
    (v.Comparable v ∧ op.compare σ v w = .error (op.rightFault σ w)) ∨
      (¬v.Comparable v ∧ op.compare σ v w = .error (op.leftFault σ v)) := by
  cases v with
  | number a =>
    have ha := hv _ rfl
    refine .inl ⟨.numbers ha ha, ?_⟩
    cases w with
    | number b => exact absurd (.numbers ha (hw _ rfl)) h
    | _ => rfl
  | char a =>
    refine .inl ⟨.chars a a, ?_⟩
    cases w with
    | char b => exact absurd (.chars a b) h
    | _ => rfl
  | string a =>
    refine .inl ⟨.strings a a, ?_⟩
    cases w with
    | string b => exact absurd (.strings a b) h
    | _ => rfl
  | _ => exact .inr ⟨nofun, rfl⟩

theorem apply_ordering_error (σ : Store) (hop : op.isOrdering = true) {f : Fault}
    (h : op.compare σ v w = .error f) : op.apply σ v w = .error f := by
  have hordered : ∀ holds, op.ordered σ holds v w = .error f := by
    intro holds
    rw [ordered, h]
  cases op <;> first | exact hordered _ | cases hop

/-- The comparisons are one total order. Of two values that stand in an order, either is below the
other or they are equal, and the other operators say no more than that; being below is transitive
across mixes of kinds, and for whole numbers it is the order of the numbers that they denote. Any
other operands are a fault, unless one is a number with a fraction. -/
theorem comparisons_total (σ : Store) :
    (∀ v w : Value, v.Comparable w → ∃ below equal above : Bool,
      [below, equal, above].count true = 1 ∧
      BinaryOp.less.apply σ v w = .ok (.bool below) ∧
      BinaryOp.equal.apply σ v w = .ok (.bool equal) ∧
      BinaryOp.less.apply σ w v = .ok (.bool above) ∧
      BinaryOp.lessEqual.apply σ v w = .ok (.bool (below || equal)) ∧
      BinaryOp.greater.apply σ v w = BinaryOp.less.apply σ w v ∧
      BinaryOp.greaterEqual.apply σ v w = BinaryOp.lessEqual.apply σ w v) ∧
    (∀ u v w : Value, u.Comparable v → v.Comparable w →
      BinaryOp.less.apply σ u v = .ok (.bool true) →
      BinaryOp.less.apply σ v w = .ok (.bool true) →
        BinaryOp.less.apply σ u w = .ok (.bool true)) ∧
    (∀ a b : Number, a.kind.isIntegral = true → b.kind.isIntegral = true →
      BinaryOp.less.apply σ (.number a) (.number b) =
        .ok (.bool (decide (a.toInt < b.toInt)))) ∧
    (∀ v w : Value, v.FractionFree → w.FractionFree → ¬v.Comparable w →
      ∀ op : BinaryOp, op.isOrdering = true →
        (v.Comparable v ∧ op.apply σ v w = .error (op.rightFault σ w)) ∨
          (¬v.Comparable v ∧ op.apply σ v w = .error (op.leftFault σ v))) := by
  refine ⟨?_, ?_, fun a b ha hb => less_whole σ ha hb, ?_⟩
  · intro v w h
    have hequal : BinaryOp.equal.apply σ v w = .ok (.bool (v.order w).isEq) := by
      rw [apply, h.equal σ]
    refine ⟨(v.order w).isLT, (v.order w).isEq, (v.order w).isGT, ?_, apply_less σ h, hequal,
      ?_, ?_, ?_, ?_⟩
    · cases v.order w <;> rfl
    · rw [apply_less σ h.symm, h.order_swap, Ordering.isLT_swap]
    · rw [apply, ordered_comparable σ _ h, Ordering.isLE_eq_isLT_or_isEq]
    · rw [apply_less σ h.symm, apply, ordered_comparable σ _ h, h.order_swap, Ordering.isLT_swap]
    · rw [apply, apply, ordered_comparable σ _ h, ordered_comparable σ _ h.symm, h.order_swap,
        Ordering.isLE_swap]
  · intro u v w huv hvw hbelow hbelow'
    rw [apply_less_iff σ huv] at hbelow
    rw [apply_less_iff σ hvw] at hbelow'
    rw [apply_less_iff σ (huv.trans hvw)]
    exact huv.order_trans hvw hbelow hbelow'
  · intro v w hv hw h op hop
    obtain ⟨hself, herror⟩ | ⟨hself, herror⟩ := compare_incomparable σ op hv hw h
    · exact .inl ⟨hself, apply_ordering_error σ hop herror⟩
    · exact .inr ⟨hself, apply_ordering_error σ hop herror⟩

/-- A `short` below a `byte` below a `long`, a `byte` that equals an `int`, and a string that has no
place among characters. -/
theorem comparisons_total_mixed :
    let σ := Store.fresh
    BinaryOp.less.apply σ (.number (.short (-300))) (.number (.long 300)) = .ok (.bool true) ∧
    (∃ below equal above : Bool, [below, equal, above].count true = 1 ∧
      BinaryOp.less.apply σ (.number (.byte 7)) (.number (.int 7)) = .ok (.bool below) ∧
      BinaryOp.equal.apply σ (.number (.byte 7)) (.number (.int 7)) = .ok (.bool equal) ∧
      BinaryOp.less.apply σ (.number (.int 7)) (.number (.byte 7)) = .ok (.bool above)) ∧
    BinaryOp.less.apply σ (.number (.byte 7)) (.number (.long 300)) = .ok (.bool true) ∧
    BinaryOp.less.apply σ (.string "a") (.char 'a') =
      .error (.invalidRight "<" (some (.prim .char))) := by
  intro σ
  obtain ⟨htotal, htrans, hwhole, hfault⟩ := comparisons_total σ
  have hlow : (Value.number (.short (-300))).Comparable (.number (.byte 7)) := .numbers rfl rfl
  have hhigh : (Value.number (.byte 7)).Comparable (.number (.long 300)) := .numbers rfl rfl
  have hbelow := hwhole (.byte 7) (.long 300) rfl rfl
  refine ⟨htrans _ _ _ hlow hhigh (hwhole (.short (-300)) (.byte 7) rfl rfl) hbelow, ?_, hbelow,
    ?_⟩
  · obtain ⟨below, equal, above, hone, hless, hequal, hgreater, -⟩ :=
      htotal (.number (.byte 7)) (.number (.int 7)) (.numbers rfl rfl)
    exact ⟨below, equal, above, hone, hless, hequal, hgreater⟩
  · obtain ⟨-, herror⟩ | ⟨hself, -⟩ := hfault (.string "a") (.char 'a') nofun nofun nofun .less rfl
    · exact herror
    · exact absurd (.strings _ _) hself

end BinaryOp

end BasicScript
