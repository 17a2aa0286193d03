import BasicScript.Proofs.Recast.State
import BasicScript.Proofs.Values.Cycles

/-! # Views of values with other spans

The text of a value, its emptiness, its equality with others, its membership
of a type, coercion, conversion and the operators on it: none of them depends
on a span.
-/

namespace BasicScript

variable {f : Span → Span}

namespace Store

variable (σ : Store)

@[simp] theorem typeOf?_mapSpans (v : Value) :
    (σ.mapSpans f).typeOf? (v.mapSpans f) = σ.typeOf? v := by
  cases v with
  | array id =>
    simp only [Value.mapSpans, typeOf?, block_mapSpans]
    rfl
  | _ => rfl

theorem elements?_mapSpans (v : Value) : (σ.mapSpans f).elements? (v.mapSpans f) =
    (σ.elements? v).map (List.map (Value.mapSpans f)) := by
  cases v with
  | string s =>
    simp only [Value.mapSpans, elements?, Option.map_some, List.map_map]
    rfl
  | array id => simp only [Value.mapSpans, elements?, elements_mapSpans, Option.map_some]
  | data d cells =>
    simp only [Value.mapSpans, elements?, Option.map_some, List.map_map]
    exact congrArg some (List.map_congr_left fun c _ => σ.read_mapSpans c)
  | _ => rfl

theorem textWithin_mapSpans (depth : Nat) (v : Value) :
    (σ.mapSpans f).textWithin depth (v.mapSpans f) = σ.textWithin depth v := by
  induction depth generalizing v with
  | zero => cases v <;> rfl
  | succ depth ih =>
    cases v with
    | array id =>
      simp only [Value.mapSpans, textWithin, elements_mapSpans, List.mapM_map, Function.comp_def,
        ih]
    | data d cells =>
      simp only [Value.mapSpans, textWithin, read_mapSpans, ih]
      rfl
    | _ => rfl

theorem text?_mapSpans (v : Value) : (σ.mapSpans f).text? (v.mapSpans f) = σ.text? v := by
  simp only [text?, depth_mapSpans, textWithin_mapSpans]

@[simp] theorem text_mapSpans (v : Value) : (σ.mapSpans f).text (v.mapSpans f) = σ.text v :=
  congrArg (Option.getD · "") (σ.text?_mapSpans v)

@[simp] theorem textEnds_mapSpans (v : Value) :
    (σ.mapSpans f).textEnds (v.mapSpans f) = σ.textEnds v :=
  congrArg Option.isSome (σ.text?_mapSpans v)

theorem payload_mapSpans (v : Value) : payload (v.mapSpans f) = (payload v).mapSpans f := by
  induction v with
  | entry _ _ _ _ ih => exact ih
  | _ => rfl

theorem isEmptyWithin_mapSpans (depth : Nat) (v : Value) :
    (σ.mapSpans f).isEmptyWithin depth (v.mapSpans f) = σ.isEmptyWithin depth v := by
  induction depth generalizing v with
  | zero =>
    unfold isEmptyWithin
    rw [payload_mapSpans]
    cases payload v with
    | array id => simp only [Value.mapSpans, elements_mapSpans, List.isEmpty_map]
    | _ => rfl
  | succ depth ih =>
    unfold isEmptyWithin
    rw [payload_mapSpans]
    cases payload v with
    | array id => simp only [Value.mapSpans, elements_mapSpans, List.isEmpty_map]
    | data d cells => simp only [Value.mapSpans, read_mapSpans, ih]
    | _ => rfl

/-- Lists are compared alike after a map that the comparison does not see. -/
theorem eachSame_mapSpans {g : Value → Value} {same same' : Value → Value → Option Bool}
    (h : ∀ v w, same' (g v) (g w) = same v w) (vs ws : List Value) :
    eachSame same' (vs.map g) (ws.map g) = eachSame same vs ws := by
  induction vs generalizing ws with
  | nil => cases ws <;> rfl
  | cons v vs ih =>
    cases ws with
    | nil => rfl
    | cons w ws => simp only [List.map_cons, eachSame_cons, List.length_map, h, ih]

theorem sameWithin_mapSpans (depth : Nat) (v w : Value) :
    (σ.mapSpans f).sameWithin depth (v.mapSpans f) (w.mapSpans f) = σ.sameWithin depth v w := by
  induction depth generalizing v w with
  | zero => cases v <;> cases w <;> rfl
  | succ depth ih =>
    cases v with
    | array a =>
      cases w with
      | array b =>
        simp only [Value.mapSpans, sameWithin, elements_mapSpans]
        rw [eachSame_mapSpans ih]
      | _ => rfl
    | data d as =>
      cases w with
      | data e bs =>
        simp only [Value.mapSpans, sameWithin, read_mapSpans, ih]
        rfl
      | _ => rfl
    | _ => cases w <;> rfl

theorem equal?_mapSpans (v w : Value) :
    (σ.mapSpans f).equal? (v.mapSpans f) (w.mapSpans f) = σ.equal? v w := by
  have hempty : ∀ v : Value, (σ.mapSpans f).isEmpty? (v.mapSpans f) = σ.isEmpty? v := by
    intro v
    simp only [isEmpty?, depth_mapSpans, isEmptyWithin_mapSpans]
  have hsame : ∀ v w : Value,
      (σ.mapSpans f).same? (v.mapSpans f) (w.mapSpans f) = σ.same? v w := by
    intro v w
    simp only [same?, depth_mapSpans, sameWithin_mapSpans]
  cases v with
  | empty => exact hempty w
  | number a =>
    cases w with
    | empty => exact hempty (.number a)
    | number b => rfl
    | _ => exact hsame (.number a) _
  | _ =>
    cases w with
    | empty => exact hempty _
    | _ => exact hsame _ _

@[simp] theorem equal_mapSpans (v w : Value) :
    (σ.mapSpans f).equal (v.mapSpans f) (w.mapSpans f) = σ.equal v w :=
  congrArg (Option.getD · false) (σ.equal?_mapSpans v w)

@[simp] theorem equalEnds_mapSpans (v w : Value) :
    (σ.mapSpans f).equalEnds (v.mapSpans f) (w.mapSpans f) = σ.equalEnds v w :=
  congrArg Option.isSome (σ.equal?_mapSpans v w)

end Store

theorem Primitive.admits_mapSpans (p : Primitive) (v : Value) :
    p.admits (v.mapSpans f) = p.admits v := by
  cases v with
  | data | entry => cases p <;> rfl
  | _ => rfl

namespace Ty

theorem forM_mapSpans {ε : Type} {g : Value → Value} {check check' : Value → Except ε Unit}
    (h : ∀ v, check' (g v) = check v) (vs : List Value) :
    (vs.map g).forM check' = vs.forM check := by
  induction vs with
  | nil => rfl
  | cons v vs ih =>
    show (do check' (g v); (vs.map g).forM check') = do check v; vs.forM check
    rw [h, ih]

@[simp] theorem check_mapSpans (t : Ty) (σ : Store) (v : Value) :
    t.check (σ.mapSpans f) (v.mapSpans f) = t.check σ v := by
  induction t generalizing v with
  | inferred => cases v <;> rfl
  | prim p =>
    have hadmits := p.admits_mapSpans (f := f) v
    cases v with
    | empty => rfl
    | _ => simp only [Value.mapSpans] at hadmits ⊢; simp only [check, hadmits]
  | array element size ih =>
    cases v with
    | array id =>
      cases size with
      | none => simp only [Value.mapSpans, check, Store.elements_mapSpans, forM_mapSpans ih]
      | some n =>
        simp only [Value.mapSpans, check, Store.elements_mapSpans, forM_mapSpans ih,
          List.length_map]
    | _ => rfl
  | vararg element ih =>
    cases v with
    | array id => simp only [Value.mapSpans, check, Store.elements_mapSpans, forM_mapSpans ih]
    | _ => rfl
  | data name => cases v <;> rfl
  | enum name => cases v <;> rfl

@[simp] theorem admits_mapSpans (t : Ty) (σ : Store) (v : Value) :
    t.admits (σ.mapSpans f) (v.mapSpans f) = t.admits σ v := by
  simp only [admits, check_mapSpans]

end Ty

/-- A coercion with other spans. -/
def Coerced.mapSpans (f : Span → Span) : Coerced → Coerced
  | .same => .same
  | .changed v σ => .changed (v.mapSpans f) (σ.mapSpans f)
  | .failed => .failed

namespace Ty

theorem each_mapSpans {g : Store → Value → Coerced}
    (h : ∀ σ v, g (σ.mapSpans f) (v.mapSpans f) = (g σ v).mapSpans f) (σ : Store)
    (vs : List Value) : Coerced.each g (σ.mapSpans f) (vs.map (Value.mapSpans f)) =
      (Coerced.each g σ vs).map fun r => (r.1, r.2.1.map (Value.mapSpans f), r.2.2.mapSpans f) := by
  induction vs generalizing σ with
  | nil => rfl
  | cons v vs ih =>
    simp only [List.map_cons, Coerced.each, h]
    cases g σ v with
    | failed => rfl
    | same =>
      simp only [Coerced.mapSpans, ih]
      cases Coerced.each g σ vs <;> rfl
    | changed w σ₁ =>
      simp only [Coerced.mapSpans, ih]
      cases Coerced.each g σ₁ vs <;> rfl

theorem coerceElements_mapSpans {element : Ty} {g : Store → Value → Coerced}
    (h : ∀ σ v, g (σ.mapSpans f) (v.mapSpans f) = (g σ v).mapSpans f) (σ : Store)
    (id : ArrayId) : coerceElements element g (σ.mapSpans f) id =
      (coerceElements element g σ id).mapSpans f := by
  unfold coerceElements
  rw [Store.elements_mapSpans, each_mapSpans h, Store.block_mapSpans]
  split
  · rfl
  · cases Coerced.each g σ (σ.elements id) with
    | none => rfl
    | some r =>
      obtain ⟨moved, ws, σ'⟩ := r
      have hnew := σ'.newArray_mapSpans (f := f) element ws
      simp only [Option.map_some, hnew, ArrayBlock.mapSpans]
      rw [apply_ite (Coerced.mapSpans f)]
      rfl

theorem coerceNumber_mapSpans (k : NumericKind) (σ : Store) (v : Value) :
    coerceNumber k (σ.mapSpans f) (v.mapSpans f) = (coerceNumber k σ v).mapSpans f := by
  cases v with
  | number n =>
    simp only [Value.mapSpans, coerceNumber]
    split
    · rfl
    · cases n.widen? k <;> rfl
  | char c => cases k <;> rfl
  | _ => rfl

theorem coerce_mapSpans (t : Ty) (σ : Store) (v : Value) :
    t.coerce (σ.mapSpans f) (v.mapSpans f) = (t.coerce σ v).mapSpans f := by
  induction t generalizing σ v with
  | prim p =>
    simp only [coerce]
    cases p.kind? with
    | none => rfl
    | some k => exact coerceNumber_mapSpans k σ v
  | array element size ih =>
    cases v with
    | array id => exact coerceElements_mapSpans ih σ id
    | _ => rfl
  | vararg element ih =>
    cases v with
    | array id => exact coerceElements_mapSpans ih σ id
    | _ => rfl
  | _ => rfl

theorem result?_mapSpans (σ : Store) (v : Value) (c : Coerced) :
    (c.mapSpans f).result? (σ.mapSpans f) (v.mapSpans f) =
      (c.result? σ v).map fun r => (r.1.mapSpans f, r.2.mapSpans f) := by
  cases c <;> rfl

/-- A value fits a place alike with other spans. -/
theorem conform_mapSpans (t : Ty) (σ : Store) (v : Value) :
    t.conform (σ.mapSpans f) (v.mapSpans f) =
      (t.conform σ v).map fun r => (r.1.mapSpans f, r.2.mapSpans f) := by
  unfold conform
  rw [coerce_mapSpans, result?_mapSpans]
  cases (t.coerce σ v).result? σ v with
  | none => rfl
  | some r =>
    obtain ⟨w, σ'⟩ := r
    simp only [Option.map_some, check_mapSpans]
    cases t.check σ' w <;> rfl

theorem castNumber?_mapSpans (k : NumericKind) (v : Value) :
    castNumber? k (v.mapSpans f) = castNumber? k v := by
  cases v <;> rfl

theorem castPrimitive?_mapSpans (σ : Store) (p : Primitive) (v : Value) :
    castPrimitive? (σ.mapSpans f) p (v.mapSpans f) =
      (castPrimitive? σ p v).map (Value.mapSpans f) := by
  have hnumber : ∀ k, (castNumber? k (v.mapSpans f)).map Value.number =
      ((castNumber? k v).map Value.number).map (Value.mapSpans f) := by
    intro k
    rw [castNumber?_mapSpans, Option.map_map]
    rfl
  cases p with
  | any => rfl
  | string => exact congrArg (fun s => some (Value.string s)) (σ.text_mapSpans v)
  | bool =>
    cases v with
    | string s =>
      simp only [Value.mapSpans, castPrimitive?]
      split <;> rfl
    | _ => rfl
  | char =>
    cases v with
    | string s =>
      simp only [Value.mapSpans, castPrimitive?]
      split <;> rfl
    | number n =>
      simp only [Value.mapSpans, castPrimitive?]
      split
      · rw [Option.map_map]
        rfl
      · rfl
    | _ => rfl
  | none => cases v <;> rfl
  | _ => exact hnumber _

theorem castEach_mapSpans {g : Store → Value → Option (Value × Store)}
    (h : ∀ σ v, g (σ.mapSpans f) (v.mapSpans f) =
      (g σ v).map fun r => (r.1.mapSpans f, r.2.mapSpans f)) (σ : Store) (vs : List Value) :
    castEach g (σ.mapSpans f) (vs.map (Value.mapSpans f)) =
      (castEach g σ vs).map fun r => (r.1.map (Value.mapSpans f), r.2.mapSpans f) := by
  induction vs generalizing σ with
  | nil => rfl
  | cons v vs ih =>
    simp only [List.map_cons, castEach, h]
    cases g σ v with
    | none => rfl
    | some r =>
      simp only [Option.map_some, ih]
      cases castEach g r.2 vs <;> rfl

theorem castElements_mapSpans {t element : Ty} {g : Store → Value → Option (Value × Store)}
    (h : ∀ σ v, g (σ.mapSpans f) (v.mapSpans f) =
      (g σ v).map fun r => (r.1.mapSpans f, r.2.mapSpans f)) (σ : Store) (vs : List Value) :
    castElements t element g (σ.mapSpans f) (vs.map (Value.mapSpans f)) =
      (castElements t element g σ vs).map fun r => (r.1.mapSpans f, r.2.mapSpans f) := by
  unfold castElements
  rw [castEach_mapSpans h]
  cases castEach g σ vs with
  | none => rfl
  | some r =>
    obtain ⟨ws, σ₁⟩ := r
    have hnew := σ₁.newArray_mapSpans (f := f) element ws
    have hadmits := t.admits_mapSpans (f := f) (σ₁.newArray element ws).2
      (.array (σ₁.newArray element ws).1)
    simp only [Value.mapSpans] at hadmits
    simp only [Option.map_some, hnew, hadmits]
    split <;> rfl

/-- The parts of a string or of an array are cast alike. -/
theorem castParts_mapSpans {t element : Ty} {g : Store → Value → Option (Value × Store)}
    (h : ∀ σ v, g (σ.mapSpans f) (v.mapSpans f) =
      (g σ v).map fun r => (r.1.mapSpans f, r.2.mapSpans f)) (σ : Store) :
    (∀ s : String, castElements t element g (σ.mapSpans f) (s.toList.map .char) =
      (castElements t element g σ (s.toList.map .char)).map
        fun r => (r.1.mapSpans f, r.2.mapSpans f)) ∧
    ∀ id, castElements t element g (σ.mapSpans f) ((σ.mapSpans f).elements id) =
      (castElements t element g σ (σ.elements id)).map
        fun r => (r.1.mapSpans f, r.2.mapSpans f) := by
  constructor
  · intro s
    have hchars : (s.toList.map Value.char).map (Value.mapSpans f) = s.toList.map Value.char := by
      rw [List.map_map]
      rfl
    rw [← castElements_mapSpans h, hchars]
  · intro id
    rw [Store.elements_mapSpans, castElements_mapSpans h]

/-- A cast comes out alike with other spans. -/
theorem cast_mapSpans (t : Ty) (σ : Store) (v : Value) :
    t.cast (σ.mapSpans f) (v.mapSpans f) =
      (t.cast σ v).map fun r => (r.1.mapSpans f, r.2.mapSpans f) := by
  -- where there are no elements to cast, the value itself must belong to the type
  have htest : ∀ (t : Ty) (σ : Store) (v : Value),
      (if t.admits (σ.mapSpans f) (v.mapSpans f) then some (v.mapSpans f, σ.mapSpans f) else none) =
        (if t.admits σ v then some (v, σ) else none).map
          fun r => (r.1.mapSpans f, r.2.mapSpans f) := by
    intro t σ v
    rw [admits_mapSpans]
    split <;> rfl
  induction t generalizing σ v with
  | prim p =>
    have hprim := castPrimitive?_mapSpans (f := f) σ p v
    cases v with
    | empty => rfl
    | _ =>
      simp only [Value.mapSpans] at hprim
      simp only [Value.mapSpans, cast, hprim, Option.map_map]
      rfl
  | array element size ih =>
    cases v with
    | string s => exact (castParts_mapSpans ih σ).1 s
    | array id => exact (castParts_mapSpans ih σ).2 id
    | _ => rfl
  | vararg element ih =>
    cases v with
    | string s => exact (castParts_mapSpans ih σ).1 s
    | array id => exact (castParts_mapSpans ih σ).2 id
    | _ => rfl
  | inferred =>
    cases v with
    | empty => rfl
    | _ => exact htest _ _ _
  | data name =>
    cases v with
    | empty => rfl
    | _ => exact htest _ _ _
  | enum name =>
    cases v with
    | empty => rfl
    | _ => exact htest _ _ _

theorem castEachEnds_mapSpans {g : Store → Value → Option (Value × Store)}
    {ends ends' : Value → Bool}
    (h : ∀ σ v, g (σ.mapSpans f) (v.mapSpans f) =
      (g σ v).map fun r => (r.1.mapSpans f, r.2.mapSpans f))
    (hends : ∀ v, ends' (v.mapSpans f) = ends v) (σ : Store) (vs : List Value) :
    castEachEnds g ends' (σ.mapSpans f) (vs.map (Value.mapSpans f)) =
      castEachEnds g ends σ vs := by
  induction vs generalizing σ with
  | nil => rfl
  | cons v vs ih =>
    simp only [List.map_cons, castEachEnds, h, hends]
    cases g σ v with
    | none => rfl
    | some r => simp only [Option.map_some, ih]

@[simp] theorem castEnds_mapSpans (t : Ty) (σ : Store) (v : Value) :
    t.castEnds (σ.mapSpans f) (v.mapSpans f) = t.castEnds σ v := by
  induction t generalizing v with
  | prim p =>
    cases p with
    | string => exact σ.textEnds_mapSpans v
    | _ => rfl
  | array element size ih | vararg element ih =>
    cases v with
    | array id =>
      simp only [Value.mapSpans, castEnds, Store.elements_mapSpans]
      exact castEachEnds_mapSpans element.cast_mapSpans ih σ _
    | _ => rfl
  | _ => rfl

end Ty

/-- What becomes of a value that is put into a cell, with other spans. -/
def Put.mapSpans (f : Span → Span) : Put → Put
  | .stored v σ => .stored (v.mapSpans f) (σ.mapSpans f)
  | .rejected m => .rejected m
  | .constant => .constant

theorem Store.put_mapSpans (σ : Store) (id : CellId) (v : Value) :
    (σ.mapSpans f).put id (v.mapSpans f) = (σ.put id v).mapSpans f := by
  simp only [put, cell_mapSpans, Cell.mapSpans, Ty.conform_mapSpans]
  split
  · rfl
  · cases (σ.cell id).type.conform σ v with
    | error m => rfl
    | ok p => simp only [Except.map, write_mapSpans, Put.mapSpans]

namespace BinaryOp

variable (σ : Store) (op : BinaryOp)

@[simp] theorem leftFault_mapSpans (v : Value) :
    op.leftFault (σ.mapSpans f) (v.mapSpans f) = op.leftFault σ v := by
  simp only [leftFault, Store.typeOf?_mapSpans]

@[simp] theorem rightFault_mapSpans (v : Value) :
    op.rightFault (σ.mapSpans f) (v.mapSpans f) = op.rightFault σ v := by
  simp only [rightFault, Store.typeOf?_mapSpans]

theorem compare_mapSpans (v w : Value) :
    op.compare (σ.mapSpans f) (v.mapSpans f) (w.mapSpans f) = op.compare σ v w := by
  have hleft := op.leftFault_mapSpans (f := f) σ v
  have hright := op.rightFault_mapSpans (f := f) σ w
  cases v with
  | number a => cases w <;> first | rfl | exact congrArg Except.error hright
  | char a => cases w <;> first | rfl | exact congrArg Except.error hright
  | string a => cases w <;> first | rfl | exact congrArg Except.error hright
  | _ => exact congrArg Except.error hleft

theorem ordered_mapSpans (holds : Ordering → Bool) (v w : Value) :
    op.ordered (σ.mapSpans f) holds (v.mapSpans f) (w.mapSpans f) =
      (op.ordered σ holds v w).map (Value.mapSpans f) := by
  simp only [ordered, compare_mapSpans]
  cases op.compare σ v w <;> rfl

theorem arithmetic_mapSpans (arith : ArithOp) (v w : Value) :
    op.arithmetic (σ.mapSpans f) arith (v.mapSpans f) (w.mapSpans f) =
      (op.arithmetic σ arith v w).map (Value.mapSpans f) := by
  have hleft := op.leftFault_mapSpans (f := f) σ v
  have hright := op.rightFault_mapSpans (f := f) σ w
  cases v with
  | number a =>
    cases w with
    | number b =>
      simp only [Value.mapSpans, arithmetic]
      cases Number.arith? arith a b <;> rfl
    | _ => exact congrArg Except.error hright
  | _ => exact congrArg Except.error hleft

theorem logical_mapSpans (g : Bool → Bool → Bool) (v w : Value) :
    op.logical (σ.mapSpans f) g (v.mapSpans f) (w.mapSpans f) =
      (op.logical σ g v w).map (Value.mapSpans f) := by
  have hleft := op.leftFault_mapSpans (f := f) σ v
  have hright := op.rightFault_mapSpans (f := f) σ w
  cases v with
  | bool a => cases w <;> first | rfl | exact congrArg Except.error hright
  | _ => exact congrArg Except.error hleft

/-- The result of an operator is alike with other spans. -/
theorem apply_mapSpans (v w : Value) :
    op.apply (σ.mapSpans f) (v.mapSpans f) (w.mapSpans f) =
      (op.apply σ v w).map (Value.mapSpans f) := by
  cases op with
  | equal | notEqual => simp only [apply, Store.equal_mapSpans]; rfl
  | less | lessEqual | greater | greaterEqual => exact ordered_mapSpans σ _ _ v w
  | concat => simp only [apply, Store.text_mapSpans]; rfl
  | add | subtract | multiply | divide | modulus => exact arithmetic_mapSpans σ _ _ v w
  | and | or => exact logical_mapSpans σ _ _ v w
  | assign | swap | is | isNot | «as» | dot =>
    exact congrArg Except.error (leftFault_mapSpans σ _ v)

@[simp] theorem ends_mapSpans (v w : Value) :
    op.ends (σ.mapSpans f) (v.mapSpans f) (w.mapSpans f) = op.ends σ v w := by
  cases op <;> simp only [ends, Store.equalEnds_mapSpans, Store.textEnds_mapSpans]

end BinaryOp

end BasicScript
