import BasicScript.Interpreter
import BasicScript.Library.Standard
import BasicScript.Proofs.Frame.Run
import BasicScript.Proofs.Types.Acceptance

/-! # The length of arrays in typed places

An array of another length than its place asks for is never taken. Coercion
comes first, though: if a number in the array would have to move down the
numeric ladder, that is what is reported, and not the length.
-/

namespace BasicScript

namespace Coerced

variable {f : Store → Value → Coerced} {σ σ₁ : Store} {v w : Value} {vs : List Value}

theorem result?_none {c : Coerced} : c.result? σ v = none ↔ c = .failed := by
  cases c <;> simp [result?]

theorem each_cons_none (hv : (f σ v).result? σ v = some (w, σ₁)) :
    each f σ (v :: vs) = none ↔ each f σ₁ vs = none := by
  cases hrest : each f σ₁ vs with
  | none =>
    refine iff_of_true ?_ rfl
    rcases result?_some.mp hv with ⟨hsame, rfl, rfl⟩ | hchanged
    · simp only [each, hsame, hrest]
    · simp only [each, hchanged, hrest]
  | some p =>
    obtain ⟨moved, ws, σ'⟩ := p
    obtain ⟨moved', hcons⟩ := each_cons hv hrest
    exact iff_of_false (by rw [hcons]; exact Option.some_ne_none _) (Option.some_ne_none _)

end Coerced

namespace Ty

/-- Whether coercion to the type meets a number of a wider kind. -/
def narrows (σ : Store) : Ty → Value → Bool
  | .prim p, .number n => p.kind?.any fun k => !decide (n.kind ≤ k)
  | .array element _, .array id | .vararg element, .array id =>
    !element.acceptsAnything && (σ.elements id).any (narrows σ element)
  | _, _ => false

variable {t element : Ty} {β σ σ' : Store} {v : Value} {id : ArrayId} {n : Nat}

theorem narrows_array (ht : t.element? = some element) (σ : Store) (id : ArrayId) :
    t.narrows σ (.array id) =
      (!element.acceptsAnything && (σ.elements id).any (element.narrows σ)) := by
  cases t <;> cases ht <;> rfl

theorem narrows_adds (hadds : σ.Adds σ') (hσ : σ.Closed) (hv : σ.Within v) :
    t.narrows σ' v = t.narrows σ v := by
  induction t using element_induction generalizing v with
  | h t ih =>
    cases v with
    | array id =>
      cases ht : t.element? with
      | none => cases t <;> first | rfl | cases ht
      | some element =>
        rw [narrows_array ht, narrows_array ht, hadds.elements hv]
        have helements : (σ.elements id).any (element.narrows σ') =
            (σ.elements id).any (element.narrows σ) := by
          rw [Bool.eq_iff_iff, List.any_eq_true, List.any_eq_true]
          exact exists_congr fun u => and_congr_right fun hu => by
            rw [ih element ht (hσ.elements id u hu)]
        rw [helements]
    | _ => cases t <;> rfl

/-- Apart from numbers, coercion to a numeric kind does not fail. -/
theorem coerceNumber_failed {k : NumericKind} (h : coerceNumber k σ v = .failed) :
    ∃ m, v = .number m ∧ ¬ m.kind ≤ k := by
  unfold coerceNumber at h
  split at h
  · next m =>
    split at h
    · cases h
    · split at h
      · cases h
      · next hwiden =>
        refine ⟨m, rfl, fun hle => ?_⟩
        rw [Number.widen?, if_pos hle] at hwiden
        cases hwiden
  · split at h <;> cases h
  · cases h

/-- Only a number that is too wide makes the coercion of a scalar fail. -/
theorem coerce_scalar_failed (ht : t.element? = none) :
    t.coerce σ v = .failed ↔ t.narrows σ v = true := by
  cases t with
  | array e size => cases ht
  | vararg e => cases ht
  | prim p =>
    cases hk : p.kind? with
    | none =>
      have hnarrows : (prim p).narrows σ v = false := by
        cases v <;> first | rfl | simp only [narrows, hk, Option.any_none]
      simp only [coerce, hk, hnarrows, reduceCtorEq, Bool.false_eq_true]
    | some k =>
      have hcoerce : (prim p).coerce σ v = coerceNumber k σ v := by simp only [coerce, hk]
      rw [hcoerce]
      constructor
      · intro h
        obtain ⟨m, rfl, hwide⟩ := coerceNumber_failed h
        simp only [narrows, hk, Option.any_some, hwide, decide_false, Bool.not_false]
      · intro h
        cases v with
        | number m =>
          have hwide : ¬ m.kind ≤ k := by simpa [narrows, hk] using h
          have hne : m.kind ≠ k := fun hkind => hwide (hkind ▸ Nat.le_refl _)
          simp only [coerceNumber, if_neg hne, Number.widen?, if_neg hwide]
        | _ => cases h
  | _ => cases v <;> (constructor <;> (intro h; cases h))

/-- The coercion of a row of values fails exactly if it fails for one of them, in the store as it
was before the row. -/
theorem each_failed_iff (he : ∀ {σ v}, σ.Closed → σ.Within v →
      (element.coerce σ v = .failed ↔ element.narrows σ v = true)) {vs : List Value}
    (hβ : β.Closed) (hadds : β.Adds σ) (hσ : σ.Closed) (hvs : ∀ v ∈ vs, β.Within v) :
    Coerced.each element.coerce σ vs = none ↔ vs.any (element.narrows β) = true := by
  induction vs generalizing σ with
  | nil => simp only [Coerced.each, reduceCtorEq, List.any_nil, Bool.false_eq_true]
  | cons v vs ih =>
    rw [List.forall_mem_cons] at hvs
    have hv := hvs.1.adds hadds
    have hhead := he hσ hv
    rw [narrows_adds hadds hβ hvs.1] at hhead
    rw [List.any_cons, Bool.or_eq_true, ← hhead]
    cases hresult : (element.coerce σ v).result? σ v with
    | none =>
      have hfailed : element.coerce σ v = .failed := Coerced.result?_none.mp hresult
      simp only [Coerced.each, hfailed, true_or]
    | some p =>
      obtain ⟨w, σ₁⟩ := p
      have hadds₁ := coerce_adds hresult
      have hmoved : element.coerce σ v ≠ .failed := fun hfailed => by
        rw [hfailed] at hresult
        cases hresult
      rw [or_iff_right hmoved, ← ih (hadds.trans hadds₁) (coerce_closed hresult hσ hv).1 hvs.2]
      exact Coerced.each_cons_none hresult

/-- Coercion fails exactly if some number in the value is too wide. -/
theorem coerce_failed_iff (hσ : σ.Closed) (hv : σ.Within v) :
    t.coerce σ v = .failed ↔ t.narrows σ v = true := by
  induction t using element_induction generalizing σ v with
  | h t ih =>
    cases ht : t.element? with
    | none => exact coerce_scalar_failed ht
    | some element =>
      cases v with
      | array id =>
        rw [coerce_array ht, coerceElements_failed, narrows_array ht, Bool.and_eq_true,
          Bool.not_eq_true',
          each_failed_iff (ih element ht) hσ (.refl σ) hσ (hσ.elements id)]
      | _ => cases t <;> cases ht <;> (constructor <;> (intro h; cases h))

theorem check_length (h : (σ.elements id).length ≠ n) :
    (array element (some n)).check σ (.array id) = .error (.size n (σ.elements id).length) :=
  if_pos h

/-- Coercion keeps the length, so what it makes fails the test for the same reason. -/
theorem conform_length (hσ : σ.Closed) (hid : σ.Within (.array id))
    (h : (σ.elements id).length ≠ n) :
    (array element (some n)).conform σ (.array id) =
      .error (if (array element (some n)).narrows σ (.array id) then .type
        else .size n (σ.elements id).length) := by
  have hfailed := coerce_failed_iff (t := array element (some n)) hσ hid
  unfold conform
  cases hc : (array element (some n)).coerce σ (.array id) with
  | failed => rw [if_pos (hfailed.mp hc), Coerced.result?]
  | same =>
    rw [if_neg (mt hfailed.mpr (by rw [hc]; exact Coerced.noConfusion)), Coerced.result?]
    simp only [check_length h]
  | changed w σ' =>
    rw [if_neg (mt hfailed.mpr (by rw [hc]; exact Coerced.noConfusion)), Coerced.result?]
    obtain ⟨-, moved, ws, σ₁, heach, rfl, rfl⟩ := coerceElements_changed hc
    have hlength := Coerced.each_length heach
    rw [← hlength] at h ⊢
    rw [← Store.elements_newArray σ₁ element ws] at h
    simp only [check_length h, Store.elements_newArray]

end Ty

namespace Run

variable {t : Ty} {v : Value} {m : Mismatch} {s : State}

theorem conform_refused (h : t.conform s.store v = .error m) :
    Run.conform t v s = .error (.error (.ofFault (.ofMismatch t (s.store.typeOf? v) m))) s := by
  unfold Run.conform Run.fit
  rw [h]
  rfl

theorem assign_refused {cell : CellId} (name : String) (ht : (s.store.cell cell).type = t)
    (hc : (s.store.cell cell).constant = false) (hv : v.isMissing = false)
    (h : t.conform s.store v = .error m) : Run.assign cell name v s =
      .error (.error (.ofFault (.ofMismatch t (s.store.typeOf? v) m))) s := by
  have hassign : Run.assign cell name v s = (Run.conform (s.store.cell cell).type v >>= fun w =>
      (Run.modifyStore (·.write cell w) >>= fun _ => Pure.pure w)) s := by
    unfold Run.assign
    rw [hv, if_neg Bool.false_ne_true]
    show (if (s.store.cell cell).constant then _ else _ : Run Value) s = _
    rw [hc, if_neg Bool.false_ne_true]
  exact hassign.trans (bind_error (ht.symm ▸ conform_refused h) _)

end Run

namespace Evaluator

/-- An array of another length is refused by every place for `n` elements, whatever its tag and
its elements: by a declaration, by every assignment to a variable or a field, by a direct store
into a cell and by a store of an element. Nothing is changed. The length is reported, unless
coercion, which comes before the test of the length, meets a number that is too wide: then the
type is reported. -/
theorem length_refused (element : Ty) (n : Nat) (id : ArrayId) (s : State)
    (hclosed : s.store.Closed) (hid : s.store.Within (.array id))
    (h : (s.store.elements id).length ≠ n) :
    let t := Ty.array element (some n)
    let mismatch := if t.narrows s.store (.array id) then Mismatch.type
      else .size n (s.store.elements id).length
    let stop := Stop.error
      (.ofFault (.ofMismatch t (some (.array (s.store.block id).element none)) mismatch))
    t.conform s.store (.array id) = .error mismatch ∧
    (∀ name constant, bind name t (.array id) constant s = .error stop s) ∧
    (∀ cell, (s.store.cell cell).type = t → (s.store.cell cell).constant = false →
      s.store.put cell (.array id) = .rejected mismatch ∧
      ∀ name, Run.assign cell name (.array id) s = .error stop s) ∧
    ∀ (r : Evaluator) target index value i s₀, Run.position index s₀ = .ok i s₀ →
      (s₀.store.block target).element = t → r.eval t.hint? value s₀ = .ok (.array id) s →
        r.setArrayElement target index value s₀ = .error stop s := by
  intro t mismatch stop
  have hconform : t.conform s.store (.array id) = .error mismatch :=
    Ty.conform_length hclosed hid h
  have hrefused : Run.conform t (.array id) s = .error stop s := Run.conform_refused hconform
  refine ⟨hconform, fun name constant => Run.bind_error hrefused _, fun cell ht hc => ⟨?_,
    fun name => Run.assign_refused name ht hc rfl hconform⟩, ?_⟩
  · rw [Store.put, hc, if_neg Bool.false_ne_true, ht, hconform]
  · intro r target index value i s₀ hposition htarget hvalue
    unfold setArrayElement
    refine (Run.bind_ok hposition _).trans ?_
    show (r.eval (s₀.store.block target).element.hint? value >>= fun v =>
      Run.conform (s₀.store.block target).element v >>= _) s₀ = _
    rw [htarget]
    exact (Run.bind_ok hvalue _).trans (Run.bind_error hrefused _)

/-- An interpreter that holds an array of two numbers. -/
def holdingTwo (first second : Number) : State :=
  { State.initial ⟨false, none, false⟩ with
    store := (Store.fresh.newArray (.prim .any) [.number first, .number second]).2 }

theorem closed_holdingTwo (first second : Number) : (holdingTwo first second).store.Closed :=
  Store.Closed.fresh.newArray (by simp [Store.Within])

/-- Two bytes could become whole numbers, so it is their count that `int[3]` refuses. -/
theorem length_refused_twoBytes :
    bind "a" (.array (.prim .int) (some 3)) (.array ⟨0⟩) false (holdingTwo (.byte 1) (.byte 2)) =
      .error (.error (.ofFault (.mismatchedSize 3 2))) (holdingTwo (.byte 1) (.byte 2)) :=
  (length_refused (.prim .int) 3 ⟨0⟩ (holdingTwo (.byte 1) (.byte 2)) (closed_holdingTwo _ _)
    (Nat.zero_lt_succ 0) (by decide)).2.1 "a" false

/-- The program `var a as int[3] = [1L, 2L]`. -/
def declaringThree : List Stmt :=
  [.generated (.declare "a" (.array (.prim .int) (some (.generated (.literal (.int 3)))))
    (.generated (.array [.generated (.literal (.long 1)), .generated (.literal (.long 2))]))
    false)]

/-- Wording of the error that a run ends with. -/
def messageOf? {α : Type} : EStateM.Result Stop State α → Option String
  | .error (.error e) _ => some e.message
  | _ => none

/-- Two long numbers hide that there should be three: the type is reported, not the length. -/
theorem length_hidden_twoLongs :
    (Ty.array (.prim .int) (some 3)).conform (holdingTwo (.long 1) (.long 2)).store (.array ⟨0⟩) =
        .error .type ∧
      messageOf?
        ((Evaluator.ofFuel .standard 6).run declaringThree (.initial ⟨false, none, true⟩)) =
          some "mismatched type: expected `int[3]`, got `long[]`" :=
  ⟨rfl, by decide +kernel⟩

end Evaluator

end BasicScript
