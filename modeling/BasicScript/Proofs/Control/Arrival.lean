import Mathlib.Order.Filter.AtTopBot.Basic
import BasicScript.Eval.Fuel
import BasicScript.Proofs.Frame.Run
import BasicScript.Proofs.Values.Cycles

/-! # Runs that arrive

A run arrives at a result if it gives it with any fuel from some amount on.
Arrivals compose as runs do, and each nesting of the rules costs one unit.
-/

namespace BasicScript

namespace Run

variable {α β : Type}

/-- With enough fuel the run gives a result and ends in a state. -/
def Arrives (x : ℕ → Run α) (s : State) (a : α) (t : State) : Prop :=
  ∀ᶠ fuel in Filter.atTop, x fuel s = .ok a t

namespace Arrives

variable {x y : ℕ → Run α} {s t u : State} {a : α} {b : β}

theorem always (h : ∀ fuel, x fuel s = .ok a t) : Arrives x s a t := .of_forall h

theorem bind {f : ℕ → α → Run β} (hx : Arrives x s a t)
    (hf : Arrives (fun fuel => f fuel a) t b u) :
    Arrives (fun fuel => x fuel >>= f fuel) s b u := by
  filter_upwards [hx, hf] with fuel hx hf
  rw [bind_ok hx]
  exact hf

/-- One more unit of fuel is spent on the way in. -/
theorem next (h : Arrives x s a t) (hy : ∀ fuel s a t, x fuel s = .ok a t →
    y (fuel + 1) s = .ok a t) : Arrives y s a t := by
  obtain ⟨least, hleast⟩ := Filter.eventually_atTop.mp h
  refine Filter.eventually_atTop.mpr ⟨least + 1, fun fuel hfuel => ?_⟩
  obtain ⟨more, rfl⟩ := Nat.exists_eq_add_of_le hfuel
  rw [Nat.add_right_comm]
  exact hy _ _ _ _ (hleast _ (Nat.le_add_right _ _))

theorem inScope (h : Arrives x { s with env := s.env.push } a t) :
    Arrives (fun fuel => Run.inScope (x fuel)) s a (popScope t) := by
  filter_upwards [h] with fuel hx
  simp only [Run.inScope, leaving, hx]

end Arrives

end Run

namespace Evaluator

open Run (Arrives)

variable {library : Library} {s t u : State} {hint : Option Ty} {span : Span} {v : Value}
  {m n : Number}

theorem arrives_eval {kind : ExprKind}
    (h : Arrives (fun fuel => (ofFuel library fuel).exprKind hint span kind) s v t) :
    Arrives (fun fuel => (ofFuel library fuel).eval hint (.mk kind span)) s v t :=
  h.next fun _ _ _ _ => Run.atSpan_ok span

theorem arrives_literal (library : Library) (hint : Option Ty) (span : Span) (l : Literal)
    (s : State) :
    Arrives (fun fuel => (ofFuel library fuel).eval hint (.mk (.literal l) span)) s
      (.ofLiteral l) s :=
  arrives_eval (.always fun _ => rfl)

/-- Numbers are combined by the operator itself, without a sub of that name. -/
theorem valueExpr_numbers {r : Evaluator} {op : BinaryOp} {left right : Expr}
    (hleft : r.eval none left s = .ok (.number m) t)
    (hright : r.eval none right t = .ok (.number n) u)
    (happly : op.apply u.store (.number m) (.number n) = .ok v) :
    r.valueExpr op left right s = .ok v u := by
  have hread : Run.read (fun s => op.apply s.store (.number m) (.number n)) u = .ok (.ok v) u :=
    congrArg (EStateM.Result.ok · u) happly
  refine (Run.bind_ok hleft _).trans ((Run.bind_ok hright _).trans ?_)
  exact (Run.ending_bind (op.ends_numbers u.store m n) _).trans (Run.bind_ok hread _)

/-- An operator on two numbers that are at hand. -/
theorem arrives_numbers {op : BinaryOp} {left right : Expr}
    (hop : ∀ r : Evaluator, r.binaryExpr op left right = r.valueExpr op left right)
    (hleft : Arrives (fun fuel => (ofFuel library fuel).eval none left) s (.number m) s)
    (hright : Arrives (fun fuel => (ofFuel library fuel).eval none right) s (.number n) s)
    (happly : op.apply s.store (.number m) (.number n) = .ok v) (hint : Option Ty) (span : Span) :
    Arrives (fun fuel => (ofFuel library fuel).eval hint (.mk (.binary op left right) span)) s
      v s := by
  apply arrives_eval
  show Arrives (fun fuel => (ofFuel library fuel).binaryExpr op left right) s v s
  filter_upwards [hleft, hright] with fuel hleft hright
  rw [hop]
  exact valueExpr_numbers hleft hright happly

end Evaluator

end BasicScript
