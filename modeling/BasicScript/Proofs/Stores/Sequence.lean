import BasicScript.Proofs.Stores.Indexed
import BasicScript.Proofs.Stores.Members
import BasicScript.Proofs.Types.Agreement

/-! # Sequences

Strings, arrays and composites have elements. Reading at an index, reading a
member, the length, the cast to characters, loops, spread arguments and
destructuring each come to the elements on a way of their own, and all of them
see the same elements in the same order.
-/

namespace BasicScript

/-- The elements of a value: the characters of a string, what an array holds, and what the fields
of a composite hold, in the order of the declaration. -/
inductive Store.Sequence (σ : Store) : Value → List Value → Prop
  | string (text : String) : Sequence σ (.string text) (text.toList.map .char)
  | array (id : ArrayId) : Sequence σ (.array id) (σ.block id).values.toList
  | data (decl : DataDecl) (cells : List CellId) :
      Sequence σ (.data decl cells) (cells.map σ.read)

/-- A fault at a node. -/
def Fault.stop (f : Fault) (span : Span) : Stop := .error ((Report.ofFault f).orSpan span)

namespace Store.Sequence

variable {σ : Store} {v : Value} {es : List Value}

theorem elements?_eq (h : σ.Sequence v es) : σ.elements? v = some es := by
  cases h <;> rfl

theorem of_elements? (h : σ.elements? v = some es) : σ.Sequence v es := by
  cases v with
  | string text =>
    cases h
    exact .string text
  | array id =>
    cases h
    exact .array id
  | data decl cells =>
    cases h
    exact .data decl cells
  | _ => cases h

/-- A value has one sequence of elements. -/
theorem unique {es' : List Value} (h : σ.Sequence v es) (h' : σ.Sequence v es') : es = es' :=
  Option.some.inj (h.elements?_eq.symm.trans h'.elements?_eq)

end Store.Sequence

namespace Run

variable {v i : Value} {s : State} {es : List Value} {k : Int}

theorem elementsOf_sequence (h : s.store.Sequence v es) : Run.elementsOf v s = .ok es s := by
  cases h <;> rfl

theorem elementsOf_unordered (h : ∀ es, ¬s.store.Sequence v es) :
    Run.elementsOf v s = Run.fail (.notIterable (s.store.typeOf? v)) s := by
  cases v with
  | string text => exact absurd (.string text) (h _)
  | array id => exact absurd (.array id) (h _)
  | data decl cells => exact absurd (.data decl cells) (h _)
  | _ => rfl

theorem sequence_of_elementsOf {t : State} (h : Run.elementsOf v s = .ok es t) :
    t = s ∧ t.store.Sequence v es := by
  by_cases hv : ∃ es', s.store.Sequence v es'
  · obtain ⟨es', hes'⟩ := hv
    cases (elementsOf_sequence hes').symm.trans h
    exact ⟨rfl, hes'⟩
  · exact nomatch (elementsOf_unordered (not_exists.mp hv)).symm.trans h

end Run

namespace Evaluator

variable {r : Evaluator} {v i : Value} {s : State} {es : List Value} {k : Int}

end Evaluator

namespace Evaluator

variable {r : Evaluator} {v : Value} {s s₁ : State} {e : Expr}

theorem iterationValues_of_ne (he : ∀ written, e.kind ≠ .type written) :
    r.iterationValues e = (do Run.elementsOf (← r.eval none e)) := by
  unfold iterationValues
  split
  · next written hkind => exact absurd hkind (he written)
  · rfl

theorem iterationValues_expression (he : ∀ written, e.kind ≠ .type written)
    (hv : r.eval none e s = .ok v s₁) : r.iterationValues e s = Run.elementsOf v s₁ := by
  rw [iterationValues_of_ne he, Run.bind_ok hv]

end Evaluator

end BasicScript
