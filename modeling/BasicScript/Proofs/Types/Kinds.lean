import BasicScript.Proofs.Calls.Order
import BasicScript.Proofs.Types.Allocation

/-! # Kinds of values

How a value is put together, with what an array holds left aside. Whatever is
fitted to a typed place is put together as the type says, and it stays so while
the elements of an array come and go.
-/

namespace BasicScript

/-- Values that are put together as a type says. -/
def Ty.suits : Ty → Value → Bool
  | _, .empty => false
  | .inferred, _ => true
  | .prim p, v => p.admits v
  | .array _ _, .array _ => true
  | .vararg _, .array _ => true
  | .data name, .data d _ => d.name == name
  | .enum name, .entry owner _ _ _ => owner == name
  | _, _ => false

theorem Ty.suits_of_check {t : Ty} {σ : Store} {v : Value} (h : t.check σ v = .ok ()) :
    t.suits v = true := by
  cases t with
  | inferred =>
    cases v with
    | empty => cases h
    | _ => rfl
  | prim p =>
    cases v with
    | empty => cases h
    | _ =>
      by_contra hnot
      simp only [Ty.suits] at hnot
      simp only [Ty.check, hnot, Bool.false_eq_true, if_false, reduceCtorEq] at h
  | array | vararg =>
    cases v with
    | array => rfl
    | _ => cases h
  | data name =>
    cases v with
    | data d cells =>
      by_contra hnot
      simp only [Ty.suits, beq_iff_eq] at hnot
      simp only [Ty.check, hnot, if_false, reduceCtorEq] at h
    | _ => cases h
  | enum name =>
    cases v with
    | entry owner =>
      by_contra hnot
      simp only [Ty.suits, beq_iff_eq] at hnot
      simp only [Ty.check, hnot, if_false, reduceCtorEq] at h
    | _ => cases h

theorem Run.conform_suits {t : Ty} {v w : Value} {s u : State}
    (h : Run.conform t v s = .ok w u) : t.suits w = true := by
  unfold Run.conform Run.fit at h
  cases hconform : t.conform s.store v with
  | error m =>
    rw [hconform] at h
    cases h
  | ok p =>
    rw [hconform] at h
    cases h
    exact Ty.suits_of_check (Ty.conform_ok.mp hconform).2

/-- The value suits the type of the parameter. -/
def Parameter.Suits (q : Parameter) (v : Value) : Prop := q.type.suits v = true

/-- Values that suit the parameters of an overload one by one. -/
def Sub.Suited (sub : Sub) (bound : List Value) : Prop :=
  List.Forall₂ Parameter.Suits sub.params bound

end BasicScript
