import BasicScript.Eval.Fuel
import BasicScript.Library.Standard
import BasicScript.Proofs.Frame.Basic
import BasicScript.Proofs.Operators.Order
import BasicScript.Proofs.Values.Depth

/-! # Equality of values

Structural equality compares values part by part, down to a depth. At every
depth it is an equivalence, and so is the equality of the language, which sees
only the whole number that a number denotes. Handles are a shortcut: where no
value is a part of itself, values that share storage are compared as if they
did not.
-/

namespace BasicScript

/-- Identity of whole numbers. -/
theorem Number.same_iff {a b : Number} (ha : a.kind.isIntegral = true) :
    a.same b = true ↔ a = b := by
  cases a with
  | float | double => cases ha
  | _ => cases b <;> simp [same]

theorem Number.same_comm {a b : Number} (ha : a.kind.isIntegral = true)
    (hb : b.kind.isIntegral = true) : a.same b = b.same a := by
  rw [Bool.eq_iff_iff, same_iff ha, same_iff hb, eq_comm]

namespace Store

section Each

variable {α : Type} {f g : α → α → Option Bool} {as bs cs : List α}

theorem eachSame_comm (h : ∀ a ∈ as, ∀ b ∈ bs, f a b = g b a) :
    eachSame f as bs = eachSame g bs as := by
  induction as generalizing bs with
  | nil => cases bs <;> rfl
  | cons a as ih =>
    cases bs with
    | nil => rfl
    | cons b bs =>
      have hrest := ih fun a ha b hb =>
        h a (List.mem_cons_of_mem _ ha) b (List.mem_cons_of_mem _ hb)
      simp only [eachSame_cons, h a List.mem_cons_self b List.mem_cons_self, hrest,
        eq_comm (a := as.length)]

theorem eachSame_true_iff :
    eachSame f as bs = some true ↔ List.Forall₂ (fun a b => f a b = some true) as bs := by
  induction as generalizing bs with
  | nil => cases bs <;> simp [eachSame]
  | cons a as ih =>
    cases bs with
    | nil => simp [eachSame]
    | cons b bs =>
      rw [eachSame_cons, List.forall₂_cons, ← ih]
      by_cases hlength : as.length = bs.length
      · rw [if_pos hlength]
        cases f a b with
        | none => simp
        | some same => cases same <;> simp
      · simp [eachSame, hlength]

/-- What is not told apart is compared as if it was different. -/
theorem eachSame_getD : (eachSame f as bs).getD false =
    as.isEqv bs fun a b => (f a b).getD false := by
  induction as generalizing bs with
  | nil => cases bs <;> rfl
  | cons a as ih =>
    cases bs with
    | nil => rfl
    | cons b bs =>
      rw [List.isEqv, ← ih, eachSame_cons]
      by_cases hlength : as.length = bs.length
      · rw [if_pos hlength]
        cases f a b with
        | none => rfl
        | some same => cases same <;> rfl
      · simp [eachSame, hlength]

end Each

/-- No number of which the value is made has a fraction. -/
def FractionFree (σ : Store) (v : Value) : Prop := ∀ w, σ.Parts v w → w.FractionFree

variable {σ : Store} {u v w : Value}

theorem FractionFree.part (h : σ.FractionFree v) (hpart : σ.Part v w) : σ.FractionFree w :=
  fun u hu => h u (.head hpart hu)

theorem FractionFree.integral {n : Number} (h : σ.FractionFree (.number n)) :
    n.kind.isIntegral = true :=
  h _ .refl _ rfl

section Within

variable {depth : Nat}

theorem sameWithin_comm (hv : σ.FractionFree v) (hw : σ.FractionFree w) :
    σ.sameWithin depth v w = σ.sameWithin depth w v := by
  induction depth generalizing v w with
  | zero =>
    cases v with
    | number a =>
      cases w with
      | number b => exact congrArg some (Number.same_comm hv.integral hw.integral)
      | _ => rfl
    | _ => cases w <;> simp [sameWithin, eq_comm, BEq.comm]
  | succ depth ih =>
    cases v with
    | number a =>
      cases w with
      | number b => exact congrArg some (Number.same_comm hv.integral hw.integral)
      | _ => rfl
    | array a =>
      cases w with
      | array b =>
        have helements := eachSame_comm (f := σ.sameWithin depth) (g := σ.sameWithin depth)
          fun x hx y hy => ih (hv.part (.element hx)) (hw.part (.element hy))
        simp only [sameWithin, helements, eq_comm (a := a)]
      | _ => rfl
    | data d as =>
      cases w with
      | data e bs =>
        have hfields := eachSame_comm
          (f := fun a b => σ.sameWithin depth (σ.read a) (σ.read b))
          (g := fun a b => σ.sameWithin depth (σ.read a) (σ.read b))
          fun x hx y hy => ih (hv.part (.field hx)) (hw.part (.field hy))
        simp only [sameWithin, hfields, eq_comm (a := as), ne_comm (a := d.name)]
      | _ => rfl
    | _ => cases w <;> simp [sameWithin, BEq.comm]

theorem sameWithin_refl (hv : σ.FractionFree v) : σ.sameWithin depth v v = some true := by
  cases v with
  | number a => cases depth <;> exact congrArg some ((Number.same_iff hv.integral).mpr rfl)
  | _ => cases depth <;> simp [sameWithin]

/-- Lists that are both the same as a third one. -/
theorem forall₂_trans {α : Type} {R : α → α → Prop} {as bs cs : List α}
    (htrans : ∀ a ∈ as, ∀ b ∈ bs, ∀ c, R a b → R b c → R a c) (h : List.Forall₂ R as bs)
    (h' : List.Forall₂ R bs cs) : List.Forall₂ R as cs := by
  induction h generalizing cs with
  | nil => exact h'
  | @cons a b as bs hab _ ih =>
    cases h' with
    | @cons _ c _ cs hbc hrest =>
      refine .cons (htrans a List.mem_cons_self b List.mem_cons_self c hab hbc) (ih ?_ hrest)
      exact fun a ha b hb => htrans a (List.mem_cons_of_mem _ ha) b (List.mem_cons_of_mem _ hb)

/-- What is the same as a value that is no handle is the same as the same values. -/
theorem sameWithin_congr (harray : ∀ id, u ≠ .array id) (hdata : ∀ d cells, u ≠ .data d cells)
    (hu : σ.FractionFree u) (h : σ.sameWithin depth u v = some true) (w : Value) :
    σ.sameWithin depth u w = σ.sameWithin depth v w := by
  cases u with
  | array id => exact absurd rfl (harray id)
  | data d cells => exact absurd rfl (hdata d cells)
  | number a =>
    cases v with
    | number b =>
      have hsame : a.same b = true := by cases depth <;> exact Option.some.inj h
      rw [(Number.same_iff hu.integral).mp hsame]
    | _ => cases depth <;> cases h
  | entry enum name ordinal value =>
    cases v with
    | entry enum' name' ordinal' value' =>
      have hsame : enum = enum' ∧ ordinal = ordinal' := by
        cases depth <;> simpa [sameWithin] using h
      cases depth <;> cases w <;> simp only [sameWithin, hsame]
    | _ => cases depth <;> cases h
  | empty | none =>
    cases v with
    | empty | none => first | rfl | (cases depth <;> cases h)
    | _ => cases depth <;> cases h
  | bool a =>
    cases v with
    | bool b =>
      have hsame : a = b := by cases depth <;> simpa [sameWithin] using h
      rw [hsame]
    | _ => cases depth <;> cases h
  | char a =>
    cases v with
    | char b =>
      have hsame : a = b := by cases depth <;> simpa [sameWithin] using h
      rw [hsame]
    | _ => cases depth <;> cases h
  | string a =>
    cases v with
    | string b =>
      have hsame : a = b := by cases depth <;> simpa [sameWithin] using h
      rw [hsame]
    | _ => cases depth <;> cases h

theorem sameWithin_trans (hu : σ.FractionFree u) (hv : σ.FractionFree v)
    (huv : σ.sameWithin depth u v = some true) (hvw : σ.sameWithin depth v w = some true) :
    σ.sameWithin depth u w = some true := by
  induction depth generalizing u v w with
  | zero =>
    cases u with
    | array a =>
      cases v with
      | array b =>
        have hab : a = b := by simpa [sameWithin] using huv
        exact hab ▸ hvw
      | _ => cases huv
    | data d as =>
      cases v with
      | data e bs =>
        have hsame : d.name = e.name ∧ as = bs := by
          by_cases hname : d.name = e.name <;> simp_all [sameWithin]
        cases w with
        | data f cs => rwa [sameWithin, hsame.1, hsame.2]
        | _ => cases hvw
      | _ => cases huv
    | _ => rwa [sameWithin_congr (by rintro _ ⟨⟩) (by rintro _ _ ⟨⟩) hu huv]
  | succ depth ih =>
    cases u with
    | array a =>
      cases v with
      | array b =>
        cases w with
        | array c =>
          rw [sameWithin] at huv hvw ⊢
          by_cases hab : a = b
          · exact hab ▸ hvw
          · by_cases hbc : b = c
            · exact hbc ▸ huv
            · rw [if_neg hab, eachSame_true_iff] at huv
              rw [if_neg hbc, eachSame_true_iff] at hvw
              split
              · rfl
              · refine eachSame_true_iff.mpr (forall₂_trans (fun x hx y hy z => ?_) huv hvw)
                exact ih (hu.part (.element hx)) (hv.part (.element hy))
        | _ => cases hvw
      | _ => cases huv
    | data d as =>
      cases v with
      | data e bs =>
        cases w with
        | data f cs =>
          have hde : d.name = e.name := by
            by_contra hne
            simp [sameWithin, hne] at huv
          have hef : e.name = f.name := by
            by_contra hne
            simp [sameWithin, hne] at hvw
          simp only [sameWithin, hde, hef, ne_eq, not_true_eq_false, if_false] at huv hvw ⊢
          by_cases hab : as = bs
          · exact hab ▸ hvw
          · by_cases hbc : bs = cs
            · exact hbc ▸ huv
            · rw [if_neg hab, eachSame_true_iff] at huv
              rw [if_neg hbc, eachSame_true_iff] at hvw
              split
              · rfl
              · refine eachSame_true_iff.mpr (forall₂_trans (fun x hx y hy z => ?_) huv hvw)
                exact ih (hu.part (.field hx)) (hv.part (.field hy))
        | _ => cases hvw
      | _ => cases huv
    | _ => rwa [sameWithin_congr (by rintro _ ⟨⟩) (by rintro _ _ ⟨⟩) hu huv]

end Within

section Equal

variable {id : ArrayId} {d : DataDecl} {cells : List CellId}

theorem same_iff : σ.same v w = true ↔ σ.same? v w = some true := by
  cases h : σ.same? v w <;> simp [same, h]

theorem equal_iff : σ.equal v w = true ↔ σ.equal? v w = some true := by
  cases h : σ.equal? v w <;> simp [equal, h]

/-- The depth of the store is enough to go into the parts. -/
theorem same?_eq (v w : Value) :
    σ.same? v w = σ.sameWithin (σ.depth * σ.depth + 1) v w :=
  (sameWithin_eq (Nat.le_succ _)).symm

theorem isEqv_refl {as : List Value} (h : ∀ a ∈ as, σ.FractionFree a) :
    as.isEqv as σ.same = true := by
  have hsame : eachSame σ.same? as as = some true :=
    eachSame_true_iff.mpr (List.forall₂_same.mpr fun a ha => sameWithin_refl (h a ha))
  have heqv : as.isEqv as σ.same = (eachSame σ.same? as as).getD false := eachSame_getD.symm
  rw [heqv, hsame, Option.getD_some]

theorem isEqv_map {α β : Type} (f : α → β) (eqv : β → β → Bool) (as bs : List α) :
    (as.map f).isEqv (bs.map f) eqv = as.isEqv bs fun a b => eqv (f a) (f b) := by
  simp [List.isEqv_eq_decide]

/-- Arrays are the same if their elements are, whether or not they are one array. -/
theorem same_array {a b : ArrayId} (ha : σ.FractionFree (.array a)) :
    σ.same (.array a) (.array b) = (σ.elements a).isEqv (σ.elements b) σ.same := by
  by_cases hab : a = b
  · subst hab
    rw [isEqv_refl fun v hv => ha.part (.element hv)]
    exact same_iff.mpr (sameWithin_refl ha)
  · rw [same, same?_eq, sameWithin, if_neg hab, eachSame_getD]
    rfl

/-- Composites are the same if they have the same name and their fields are the same, whether or not
they share cells. -/
theorem same_data {e : DataDecl} {as bs : List CellId} (ha : σ.FractionFree (.data d as)) :
    σ.same (.data d as) (.data e bs) =
      (d.name == e.name && (as.map σ.read).isEqv (bs.map σ.read) σ.same) := by
  by_cases hname : d.name = e.name
  · rw [beq_iff_eq.mpr hname, Bool.true_and]
    by_cases hcells : as = bs
    · subst hcells
      have hrefl : (as.map σ.read).isEqv (as.map σ.read) σ.same = true := by
        refine isEqv_refl fun v hv => ?_
        obtain ⟨c, hc, rfl⟩ := List.mem_map.mp hv
        exact ha.part (.field hc)
      rw [same, same?_eq, sameWithin, if_neg (not_not_intro hname), if_pos rfl, hrefl]
      rfl
    · rw [same, same?_eq, sameWithin, if_neg (not_not_intro hname), if_neg hcells, eachSame_getD,
        isEqv_map]
      rfl
  · rw [same, same?_eq, sameWithin, if_pos hname, beq_eq_false_iff_ne.mpr hname]
    rfl

/-- Whole numbers are equal if they denote the same number, of whatever kind they are. -/
theorem equal?_number_iff {a b : Number} (ha : σ.FractionFree (.number a))
    (hb : σ.FractionFree (.number b)) :
    σ.equal? (.number a) (.number b) = some true ↔ a.toInt = b.toInt := by
  show some (a.equal b) = some true ↔ _
  rw [Number.equal_whole ha.integral hb.integral, Option.some.injEq, beq_iff_eq]

theorem equal?_comm (hv : σ.FractionFree v) (hw : σ.FractionFree w) :
    σ.equal? v w = σ.equal? w v := by
  cases v with
  | empty => cases w <;> rfl
  | number a =>
    cases w with
    | empty => rfl
    | number b =>
      show some (a.equal b) = some (b.equal a)
      rw [Number.equal_whole hv.integral hw.integral, Number.equal_whole hw.integral hv.integral,
        BEq.comm]
    | _ => exact sameWithin_comm hv hw
  | _ =>
    cases w with
    | empty => rfl
    | _ => exact sameWithin_comm hv hw

/-- Two values that are there can be compared if one of them has no cycle. -/
theorem Acyclic.equalEnds (hv : σ.Acyclic v) (hv' : v.isMissing = false)
    (hw' : w.isMissing = false) : σ.equalEnds v w = true := by
  have hsame : (σ.same? v w).isSome = true := hv.isSome_sameWithin w σ.depth_le_square
  cases v with
  | empty => cases hv'
  | number a =>
    cases w with
    | empty => cases hw'
    | _ => rfl
  | _ =>
    cases w with
    | empty => cases hw'
    | _ => exact hsame

/-- Equality does not depend on the side. -/
theorem equal_comm (hv : σ.FractionFree v) (hw : σ.FractionFree w) :
    σ.equal v w = σ.equal w v :=
  congrArg (Option.getD · false) (equal?_comm hv hw)

theorem equal_missing (σ : Store) (v : Value) : σ.equal .empty v = σ.equal v .empty := by
  cases v <;> rfl

theorem equal_of_same (hv : σ.FractionFree v) (h : σ.same v w = true) : σ.equal v w = true := by
  rw [same_iff] at h
  rw [equal_iff]
  cases v with
  | empty =>
    cases w with
    | empty => rfl
    | _ => cases h
  | number a =>
    cases w with
    | number b =>
      obtain rfl := (Number.same_iff hv.integral).mp (Option.some.inj h)
      exact equal?_number_iff hv hv |>.mpr rfl
    | _ => cases h
  | _ =>
    cases w with
    | empty => cases h
    | _ => exact h

theorem equal_refl (hv : σ.FractionFree v) : σ.equal v v = true :=
  equal_of_same hv (same_iff.mpr (sameWithin_refl hv))

theorem equal_trans (hu : σ.FractionFree u) (hv : σ.FractionFree v) (hw : σ.FractionFree w)
    (hu' : u.isMissing = false) (hv' : v.isMissing = false) (hw' : w.isMissing = false)
    (huv : σ.equal u v = true) (hvw : σ.equal v w = true) : σ.equal u w = true := by
  rw [equal_iff] at *
  cases u with
  | empty => cases hu'
  | number a =>
    cases v with
    | empty => cases hv'
    | number b =>
      cases w with
      | empty => cases hw'
      | number c =>
        rw [equal?_number_iff hu hv] at huv
        rw [equal?_number_iff hv hw] at hvw
        exact (equal?_number_iff hu hw).mpr (huv.trans hvw)
      | _ => cases hvw
    | _ => cases huv
  | _ =>
    cases v with
    | empty => cases hv'
    | number b => cases huv
    | _ =>
      cases w with
      | empty => cases hw'
      | number c => cases hvw
      | _ => exact sameWithin_trans hu hv huv hvw

end Equal

end Store

/-- A case of a switch is chosen as if its value stood on the left. -/
theorem Evaluator.caseMatches_values (r : Evaluator) {s t : State} {e : Expr} {v w : Value}
    (rest : List Expr) (he : r.eval none e s = .ok w t) (hv : t.store.FractionFree v)
    (hw : t.store.FractionFree w) : r.caseMatches v (.values (e :: rest)) s =
      if t.store.equalEnds w v = false then .error .outOfFuel t
      else if t.store.equal w v = true then .ok true t
      else r.caseMatches v (.values rest) t := by
  have hends : t.store.equalEnds v w = t.store.equalEnds w v :=
    congrArg Option.isSome (Store.equal?_comm hv hw)
  rw [caseMatches, anyEqual, Run.bind_ok he, ← hends, ← Store.equal_comm hv hw]
  rcases Run.ending_cases (·.equalEnds v w) t with ⟨h, -⟩ | ⟨h, hstop⟩
  · have hread : Run.read (fun s => s.store.equal v w) t = .ok (t.store.equal v w) t := rfl
    have hgoes : ¬t.store.equalEnds v w = false := by simp [h]
    rw [Run.ending_bind h, Run.bind_ok hread, if_neg hgoes]
    cases t.store.equal v w <;> rfl
  · rw [Run.bind_error hstop, if_pos h]

namespace Store

/-- Equality is an equivalence. That holds of the equality of the language on all values that are
there and of structural equality on all values, as far as no number with a fraction is in them;
numbers are equal if they denote the same whole number, and values of the same structure are equal.
Handles are a shortcut, so values without cycles are compared by what they are made of, and their
comparison has an end. Which side a value is on makes no difference to `==`, `!=` and the cases of a
switch. -/
theorem equality_equivalence (σ : Store) :
    Equivalence (fun v w : {v : Value // σ.FractionFree v ∧ v.isMissing = false} =>
      σ.equal v w = true) ∧
    Equivalence (fun v w : {v : Value // σ.FractionFree v} => σ.same v w = true) ∧
    (∀ v w : Value, σ.FractionFree v → σ.FractionFree w → σ.same v w = true →
      σ.equal v w = true) ∧
    (∀ a b : ArrayId, σ.Acyclic (.array a) → σ.Acyclic (.array b) → σ.FractionFree (.array a) →
      σ.FractionFree (.array b) →
        σ.same (.array a) (.array b) = (σ.elements a).isEqv (σ.elements b) σ.same) ∧
    (∀ (d e : DataDecl) (as bs : List CellId), σ.Acyclic (.data d as) → σ.Acyclic (.data e bs) →
      σ.FractionFree (.data d as) → σ.FractionFree (.data e bs) →
        σ.same (.data d as) (.data e bs) =
          (d.name == e.name && (as.map σ.read).isEqv (bs.map σ.read) σ.same)) ∧
    (∀ a b : Number, a.kind.isIntegral = true → b.kind.isIntegral = true →
      (σ.equal (.number a) (.number b) = true ↔ a.toInt = b.toInt)) ∧
    (∀ v : Value, σ.equal .empty v = σ.equal v .empty) ∧
    (∀ v w : Value, σ.Acyclic v → v.isMissing = false → w.isMissing = false →
      σ.equalEnds v w = true) ∧
    ∀ v w : Value, σ.FractionFree v → σ.FractionFree w →
      σ.equalEnds v w = σ.equalEnds w v ∧
      BinaryOp.equal.apply σ v w = BinaryOp.equal.apply σ w v ∧
      BinaryOp.notEqual.apply σ v w = BinaryOp.notEqual.apply σ w v ∧
      ∀ (r : Evaluator) (s t : State) (e : Expr) (rest : List Expr), r.eval none e s = .ok w t →
        t.store = σ → r.caseMatches v (.values (e :: rest)) s =
          if σ.equalEnds w v = false then .error .outOfFuel t
          else if σ.equal w v = true then .ok true t
          else r.caseMatches v (.values rest) t := by
  refine ⟨⟨fun v => equal_refl v.2.1, fun {v w} h => (equal_comm w.2.1 v.2.1).trans h,
    fun {u v w} => equal_trans u.2.1 v.2.1 w.2.1 u.2.2 v.2.2 w.2.2⟩,
    ⟨fun v => same_iff.mpr (sameWithin_refl v.2), fun {v w} h => ?_, fun {u v w} huv hvw => ?_⟩,
    fun v w hv _ => equal_of_same hv, fun a b _ _ ha _ => same_array ha,
    fun d e as bs _ _ ha _ => same_data ha, ?_, equal_missing σ,
    fun v w hv => hv.equalEnds, ?_⟩
  · rw [same_iff] at *
    exact (sameWithin_comm w.2 v.2).trans h
  · rw [same_iff] at *
    exact sameWithin_trans u.2 v.2 huv hvw
  · intro a b ha hb
    show a.equal b = true ↔ _
    rw [Number.equal_whole ha hb, beq_iff_eq]
  · intro v w hv hw
    have hcomm := equal_comm hv hw
    refine ⟨congrArg Option.isSome (equal?_comm hv hw),
      by rw [BinaryOp.apply, BinaryOp.apply, hcomm],
      by rw [BinaryOp.apply, BinaryOp.apply, hcomm], ?_⟩
    rintro r s t e rest he rfl
    exact r.caseMatches_values rest he hv hw

theorem measure_lt_of_transGen {σ : Store} {measure : Value → ℕ} {u w : Value}
    (hpart : ∀ u w, σ.Part u w → measure w < measure u) (h : Relation.TransGen σ.Part u w) :
    measure w < measure u := by
  induction h with
  | single h => exact hpart _ _ h
  | tail _ h ih => exact (hpart _ _ h).trans ih

/-- A value has no cycle if its parts go down in some measure. -/
theorem Acyclic.of_measure {σ : Store} (measure : Value → ℕ)
    (hpart : ∀ u w, σ.Part u w → measure w < measure u) (v : Value) : σ.Acyclic v :=
  fun _ _ hcycle => Nat.lt_irrefl _ (measure_lt_of_transGen hpart hcycle)

/-- Two lists of pairs, one of which holds the same pair twice and the other two pairs that are
alike. -/
def sharing : Store where
  cells := #[⟨.prim .any, .array ⟨2⟩, false⟩, ⟨.prim .any, .array ⟨3⟩, false⟩]
  arrays := #[⟨.prim .any, #[.number (.byte 1), .entry "Color" "red" 0 .none]⟩,
    ⟨.prim .any, #[.number (.byte 1), .entry "Color" "red" 0 .none]⟩,
    ⟨.prim .any, #[.array ⟨0⟩, .array ⟨0⟩]⟩, ⟨.prim .any, #[.array ⟨0⟩, .array ⟨1⟩]⟩]

/-- The composites that hold the lists. -/
def holding (c : CellId) : Value := .data ⟨"Holder", [⟨"pairs", .prim .any, false, none⟩], []⟩ [c]

/-- Depth of the values in the store. -/
def nesting : Value → ℕ
  | .array id => id.index + 1
  | .data .. => 5
  | _ => 0

/-- Only an array that has been made has elements. -/
theorem lt_size_of_mem {σ : Store} {id : ArrayId} {v : Value} (hv : v ∈ σ.elements id) :
    id.index < σ.arrays.size := by
  by_contra hsize
  have hnone : σ.arrays[id.index]? = none := Array.getElem?_eq_none (Nat.not_lt.mp hsize)
  simp [elements, block, hnone] at hv

theorem part_sharing {v w : Value} (h : sharing.Part v w) :
    nesting w < nesting v ∧ w.FractionFree := by
  cases h with
  | @element id w hw =>
    have hall : ∀ i < 4, ∀ w ∈ sharing.elements ⟨i⟩,
        nesting w ≤ i ∧ w.kind?.all NumericKind.isIntegral = true := by decide
    obtain ⟨hle, hkind⟩ := hall id.index (lt_size_of_mem hw) w hw
    exact ⟨Nat.lt_succ_of_le hle, (Option.all_eq_true _ _).mp hkind⟩
  | @field d cells c =>
    obtain ⟨_ | _ | n⟩ := c
    · exact ⟨(by decide : 3 < 5), nofun⟩
    · exact ⟨(by decide : 4 < 5), nofun⟩
    · exact ⟨Nat.succ_pos _, nofun⟩

theorem fractionFree_sharing {v : Value} (hv : v.FractionFree) : sharing.FractionFree v := by
  intro w hw
  induction hw with
  | refl => exact hv
  | tail _ hpart _ => exact (part_sharing hpart).2

/-- Two composites without a cycle, alike but with different sharing, and two kinds of a number. -/
theorem equality_equivalence_sharing :
    let once := Value.array ⟨2⟩
    let twice := Value.array ⟨3⟩
    sharing.Acyclic once ∧ sharing.FractionFree once ∧
    (sharing.elements ⟨2⟩).isEqv (sharing.elements ⟨3⟩) sharing.same = true ∧
    sharing.equalEnds once twice = true ∧
    sharing.equal once twice = true ∧ sharing.equal twice once = true ∧
    sharing.equal (holding ⟨0⟩) (holding ⟨1⟩) = true ∧
    sharing.equal (.number (.byte 7)) (.number (.long 7)) = true ∧
    (Evaluator.ofFuel .standard 1).caseMatches (.number (.long 7))
      (.values [.generated (.literal (.byte 7))])
        { State.initial ⟨false, none, true⟩ with store := sharing } =
      .ok true { State.initial ⟨false, none, true⟩ with store := sharing } := by
  intro once twice
  obtain ⟨hequal, hsame, himplies, harray, hdata, hnumber, -, hends, hsides⟩ :=
    equality_equivalence sharing
  have hacyclic := Acyclic.of_measure nesting fun u w h => (part_sharing h).1
  have honce : sharing.FractionFree once := fractionFree_sharing nofun
  have htwice : sharing.FractionFree twice := fractionFree_sharing nofun
  have helements : (sharing.elements ⟨2⟩).isEqv (sharing.elements ⟨3⟩) sharing.same = true := by
    decide
  have hlists : sharing.equal once twice = true := by
    apply himplies _ _ honce htwice
    rw [harray _ _ (hacyclic _) (hacyclic _) honce htwice, helements]
  have hholding : sharing.same (holding ⟨0⟩) (holding ⟨1⟩) = true := by
    rw [holding, holding, hdata _ _ _ _ (hacyclic _) (hacyclic _) (fractionFree_sharing nofun)
      (fractionFree_sharing nofun)]
    decide
  have hseven : sharing.equal (.number (.byte 7)) (.number (.long 7)) = true :=
    (hnumber _ _ rfl rfl).mpr (by decide)
  have hlong : sharing.FractionFree (.number (.long 7)) :=
    fractionFree_sharing (by rintro _ ⟨⟩; rfl)
  have hbyte : sharing.FractionFree (.number (.byte 7)) :=
    fractionFree_sharing (by rintro _ ⟨⟩; rfl)
  have hcase := (hsides _ _ hlong hbyte).2.2.2 (Evaluator.ofFuel .standard 1)
    { State.initial ⟨false, none, true⟩ with store := sharing } _
    (.generated (.literal (.byte 7))) [] rfl rfl
  refine ⟨hacyclic _, honce, helements, hends _ _ (hacyclic _) rfl rfl, hlists, ?_,
    himplies _ _ (fractionFree_sharing nofun) (fractionFree_sharing nofun) hholding, hseven, ?_⟩
  · exact hequal.symm (x := ⟨once, honce, rfl⟩) (y := ⟨twice, htwice, rfl⟩) hlists
  · rw [hcase, if_neg (by decide), if_pos hseven]

end Store

end BasicScript
