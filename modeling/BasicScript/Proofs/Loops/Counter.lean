import BasicScript.Proofs.Frame.Declarations
import BasicScript.Proofs.Frame.Stacks
import BasicScript.Proofs.Operators.Arithmetic
import BasicScript.Proofs.Operators.Order
import BasicScript.Proofs.Stores.Assignment
import BasicScript.Proofs.Types.Detour

/-! # The counter of a loop

A variable of a scope around the body, in which numbers of one kind are
counted. The body declares nothing in that scope, so the counter is in its
hands only by value. Test and increment are expressions like any other: both
move up to the wider kind, and the sum is reduced to the width of the counter.
-/

namespace BasicScript

/-- Whether a variable that is declared with the type, and given a number of the first kind, counts
in numbers of the second. -/
def Ty.CountsIn (t : Ty) (given k : NumericKind) : Prop :=
  t.acceptsAnything = true ∧ given = k ∨ t = .ofKind k ∧ given ≤ k

namespace Ty

variable {t : Ty} {given k : NumericKind} {n : Number} {σ : Store}

/-- The counter starts with the number that it is given, in the kind in which it counts. -/
theorem CountsIn.conform (h : t.CountsIn n.kind k) (hk : k.isIntegral = true) :
    t.conform σ (.number n) = .ok (.number (.ofInt n.toInt k), σ) := by
  rcases h with ⟨hany, rfl⟩ | ⟨rfl, hle⟩
  · rw [Number.ofInt_toInt hk]
    cases t with
    | inferred => rfl
    | prim p => cases p <;> first | rfl | cases hany
    | _ => cases hany
  · rw [← Number.convert_integral n hk]
    exact conform_ok.mpr ⟨coerce_ofKind σ hle, check_number σ (Number.kind_convert n k)⟩

theorem CountsIn.self (h : t.CountsIn given k) : t.CountsIn k k :=
  h.imp (fun h => ⟨h.1, rfl⟩) fun h => ⟨h.1, Nat.le_refl _⟩

/-- A number of the kind in which the counter counts is stored as it is. -/
theorem CountsIn.stored (h : t.CountsIn given k) (hn : n.kind = k) (hk : k.isIntegral = true) :
    t.conform σ (.number n) = .ok (.number n, σ) := by
  subst hn
  rw [h.self.conform hk, Number.ofInt_toInt hk]

theorem CountsIn.wider (h : t.CountsIn given k) : k.wider given = k := by
  rcases h with ⟨-, rfl⟩ | ⟨-, hle⟩
  · exact ite_self _
  · rw [NumericKind.wider_comm]
    exact if_pos hle

theorem CountsIn.le (h : t.CountsIn given k) : given ≤ k := by
  rcases h with ⟨-, rfl⟩ | ⟨-, hle⟩
  · exact Nat.le_refl _
  · exact hle

/-- The type of a variable that is declared with a number; without an annotation it is that of the
number. -/
def boundBy (t : Ty) (n : Number) : Ty :=
  match t with
  | .inferred => .ofKind n.kind
  | t => t

theorem CountsIn.boundBy (h : t.CountsIn n.kind k) : (t.boundBy n).CountsIn n.kind k := by
  rcases h with ⟨hany, rfl⟩ | ⟨rfl, hle⟩
  · cases t with
    | inferred => exact .inr ⟨rfl, Nat.le_refl _⟩
    | prim p => exact .inl ⟨hany, rfl⟩
    | _ => cases hany
  · exact .inr ⟨rfl, hle⟩

theorem bindingType_number (t : Ty) (n : Number) (s : State) :
    Evaluator.bindingType (.number n) t s = .ok (t.boundBy n) s := by
  cases t <;> rfl

end Ty

namespace Expr

/-- The test whether a variable is below a limit. -/
def isBelow (name : String) (limit : Expr) (span : Span) : Expr :=
  .mk (.binary .less (.generated (.name name)) limit) span

/-- The sum of a variable and a step. -/
def stepped (name : String) (step : Expr) : Expr :=
  .generated (.binary .add (.generated (.name name)) step)

/-- The increment of a variable by a step. -/
def increment (name : String) (step : Expr) (span : Span) : Expr :=
  .mk (.binary .assign (.generated (.name name)) (.stepped name step)) span

end Expr

namespace State

/-- A new scope in which a variable is declared. -/
def entering (s : State) (name : String) (c : Cell) : State where
  store := (s.store.newCell c).2
  env := s.env.push.addVariable name (s.store.newCell c).1
  calls := s.calls
  returns := s.returns
  console := s.console
  core := s.core

/-- The state after a value has been stored in a cell. -/
def storing (s : State) (id : CellId) (v : Value) : State :=
  { s with store := s.store.write id v }

/-- The name stands for a variable that counts in numbers of a kind and holds this one. -/
structure Counter (s : State) (name : String) (id : CellId) (k : NumericKind) (n : Number) :
    Prop where
  reach : ∀ id ∈ s.env.current, id.index < s.env.scopes.size
  visible : s.env.cell? name = some id
  present : id.index < s.store.cells.size
  writable : (s.store.cell id).constant = false
  type : (s.store.cell id).type.CountsIn k k
  value : s.store.read id = .number n
  kind : n.kind = k

namespace Counter

variable {s t : State} {name : String} {id : CellId} {k : NumericKind} {n : Number}

/-- What declares nothing leaves the counter in place, whatever number it shows afterwards. -/
theorem frame (h : s.Counter name id k n) (hframe : Frame False s t) {m : Number}
    (hvalue : t.store.read id = .number m) (hm : m.kind = k) : t.Counter name id k m := by
  have hkeeps := hframe.grows.store.cell h.present
  have hdeclares : s.DeclaresOnly [] t := .ofFrame hframe
  have hnames := hdeclares.sameNames h.reach
  constructor
  · intro id hid
    rw [hframe.current] at hid
    exact Nat.lt_of_lt_of_le (h.reach id hid) hframe.grows.scopes.size_le
  · rw [hnames.cell, h.visible]
  · exact Nat.lt_of_lt_of_le h.present hframe.grows.store.cells.size_le
  · rw [hkeeps.constant, h.writable]
  · rw [hkeeps.type]
    exact h.type
  · exact hvalue
  · exact hm

/-- The counter is given another number of its kind. -/
theorem storing (h : s.Counter name id k n) {m : Number} (hm : m.kind = k) :
    (s.storing id (.number m)).Counter name id k m where
  reach := h.reach
  visible := h.visible
  present := by
    show id.index < (s.store.cells.modify ..).size
    rw [Array.size_modify]
    exact h.present
  writable := (Store.cell_write_type s.store id id _).2.trans h.writable
  type := (Store.cell_write_type s.store id id _).1.symm ▸ h.type
  value := Store.read_write h.present
  kind := hm

/-- A number of the kind of the counter is stored as it is. -/
theorem assign (h : s.Counter name id k n) (shown : String) {m : Number} (hm : m.kind = k)
    (hk : k.isIntegral = true) :
    Run.assign id shown (.number m) s = .ok (.number m) (s.storing id (.number m)) := by
  have hconform := h.type.stored (σ := s.store) hm hk
  obtain ⟨w, σ, htaken, hrun⟩ := Run.assign_taken shown ⟨h.writable, rfl, _, _, hconform⟩
  rw [hconform] at htaken
  cases htaken
  exact hrun

/-- A number of a wider kind is not stored. -/
theorem assign_wider (h : s.Counter name id k n) (htype : (s.store.cell id).type = .ofKind k)
    (shown : String) {m : Number} (hm : k < m.kind) : Run.assign id shown (.number m) s =
      .error (.error (.ofFault (.mismatchedType (.ofKind k) (some (.ofKind m.kind))))) s := by
  have hne : m.kind ≠ k := by
    rintro rfl
    exact Nat.lt_irrefl _ hm
  have hnot : ¬m.kind ≤ k := Nat.not_le_of_lt hm
  have hconform : (Ty.ofKind k).conform s.store (.number m) = .error .type := by
    simp only [Ty.conform, Ty.ofKind, Ty.coerce, Primitive.kind?_primitive, Ty.coerceNumber,
      if_neg hne, Number.widen?, if_neg hnot, Coerced.result?]
  rw [Run.assign_eq shown h.writable rfl, htype]
  apply Run.bind_error
  simp only [Run.conform, Run.fit, hconform]
  rfl

/-- The body of a loop declares nothing around it, so the counter is in its hands only by value. -/
theorem scopedBlock (h : s.Counter name id k n) {body : List Stmt} {flow : Flow}
    (hbody : Run.Arrives (fun fuel => (Evaluator.ofFuel .standard fuel).scopedBlock body) s flow t)
    (hvalue : t.store.read id = s.store.read id) : t.Counter name id k n := by
  obtain ⟨fuel, hrun⟩ := hbody.exists
  have hframe := ((Evaluator.ofFuel_precedes_self (c := False) Library.standard_framed
    fuel).scopedBlock (o := False) body).frame_ok hrun
  exact h.frame hframe (hvalue.trans h.value) h.kind

/-- The variable has just been declared. -/
theorem declared {here : ScopeId} {around : ScopePath} (hcurrent : s.env.current = here :: around)
    (hs : ∀ id ∈ s.env.current, id.index < s.env.scopes.size) (name : String) {t : Ty}
    (ht : t.CountsIn k k) (hn : n.kind = k) :
    (s.withVariable name ⟨t, .number n, false⟩).Counter name ⟨s.store.cells.size⟩ k n where
  reach := by
    intro id hid
    show id.index < (s.env.scopes.modify ..).size
    rw [Array.size_modify]
    exact hs id hid
  visible := by
    have hid : s.env.currentId = here := by
      rw [Environment.currentId, hcurrent]
      rfl
    obtain ⟨sc, hsc⟩ : ∃ sc, s.env.scopes[s.env.currentId.index]? = some sc := by
      rw [hid]
      exact ⟨_, Array.getElem?_eq_getElem (hs here (hcurrent ▸ List.mem_cons_self))⟩
    have hscope := State.withVariable_scope name ⟨t, .number n, false⟩ hsc
    rw [hid] at hscope
    show (s.env.current.findSome? fun id =>
      ((s.withVariable name ⟨t, .number n, false⟩).env.scope id).cell? name) = _
    rw [hcurrent, List.findSome?_cons, Environment.scope, hscope, Option.getD_some, Scope.cell?,
      List.lookup_cons_self]
    rfl
  present := by
    show s.store.cells.size < (s.store.cells.push _).size
    rw [Array.size_push]
    exact Nat.lt_succ_self _
  writable := by simp [withVariable, Store.cell, Store.newCell]
  type := by simpa [withVariable, Store.cell, Store.newCell] using ht
  value := by simp [withVariable, Store.cell, Store.read, Store.newCell]
  kind := hn

/-- A fresh scope with the variable. -/
theorem entering (hs : ∀ id ∈ s.env.current, id.index < s.env.scopes.size) (name : String)
    {t : Ty} (ht : t.CountsIn k k) (hn : n.kind = k) :
    (s.entering name ⟨t, .number n, false⟩).Counter name ⟨s.store.cells.size⟩ k n := by
  have hreach : ∀ id ∈ s.env.push.current, id.index < s.env.push.scopes.size := by
    intro id hid
    show id.index < (s.env.scopes.push .blank).size
    rw [Array.size_push]
    rcases List.mem_cons.mp hid with rfl | hid
    · exact Nat.lt_succ_self _
    · exact Nat.lt_succ_of_lt (hs id hid)
  exact declared (s := { s with env := s.env.push }) rfl hreach name ht hn

end Counter

end State

namespace Evaluator

open Run (Arrives)

variable {s t u : State} {hint : Option Ty} {span : Span} {v : Value} {label : Option String}
  {name : String} {id : CellId} {k : NumericKind} {m n : Number} {body : List Stmt}

theorem eval_counter (h : s.Counter name id k n) (fuel : ℕ) :
    (ofFuel .standard (fuel + 1)).eval none (.generated (.name name)) s = .ok (.number n) s := by
  apply Run.atSpan_ok
  show (Run.cellOf name >>= fun cell => Run.read fun s => s.store.read cell) s = _
  rw [Run.bind_ok (Run.cellOf_ok h.visible)]
  exact congrArg (EStateM.Result.ok · s) h.value

theorem arrives_counter (h : s.Counter name id k n) :
    Arrives (fun fuel => (ofFuel .standard fuel).eval none (.generated (.name name))) s
      (.number n) s := by
  filter_upwards [Filter.eventually_gt_atTop 0] with fuel hfuel
  obtain ⟨fuel, rfl⟩ := Nat.exists_eq_add_one_of_ne_zero hfuel.ne'
  exact eval_counter h fuel

/-- The test compares the counter with the limit. -/
theorem arrives_below (h : s.Counter name id k m) {l : Literal}
    (hl : Value.ofLiteral l = .number n) (hwider : k.wider n.kind = k) (hk : k.isIntegral = true)
    (span atLimit : Span) :
    Arrives
      (fun fuel => (ofFuel .standard fuel).test (.isBelow name (.mk (.literal l) atLimit) span))
      s (decide (m.toInt < n.toInt)) s := by
  have hlimit := arrives_literal .standard none atLimit l s
  rw [hl] at hlimit
  have hless := BinaryOp.less_whole s.store (h.kind ▸ hk) (NumericKind.isIntegral_right hwider hk)
  exact (arrives_numbers (fun _ => rfl) (arrives_counter h) hlimit hless none span).bind
    (.always fun _ => rfl)

/-- The sum of counter and step takes two rules, and without fuel for them the run stops. -/
theorem eval_sum (h : s.Counter name id k m) {l : Literal} (hl : Value.ofLiteral l = .number n)
    (hk : k.isIntegral = true) (hn : n.kind.isIntegral = true) (fuel : ℕ) (hint : Option Ty)
    (atStep : Span) :
    (ofFuel .standard fuel).eval hint (.stepped name (.mk (.literal l) atStep)) s =
      if fuel < 2 then .error .outOfFuel s
      else .ok (.number (.ofInt (m.toInt + n.toInt) (k.wider n.kind))) s := by
  rcases fuel with _ | _ | fuel
  · rfl
  · rfl
  rw [if_neg (by omega)]
  apply Run.atSpan_ok
  have hstep : (ofFuel .standard (fuel + 1)).eval none (.mk (.literal l) atStep) s =
      .ok (.number n) s := hl ▸ Run.atSpan_ok atStep rfl
  have hadd := BinaryOp.add_whole s.store (a := m) (b := n) (h.kind ▸ hk) hn
  rw [h.kind] at hadd
  exact valueExpr_numbers (eval_counter h fuel) hstep hadd

/-- The increment is one rule more, and stores the sum. -/
theorem eval_increment (h : s.Counter name id k m) {l : Literal}
    (hl : Value.ofLiteral l = .number n) (hk : k.isIntegral = true)
    (hn : n.kind.isIntegral = true) (fuel : ℕ) (span atStep : Span) :
    (ofFuel .standard fuel).eval none (.increment name (.mk (.literal l) atStep) span) s =
      if fuel < 3 then .error .outOfFuel s
      else Run.atSpan span (Run.assign id name
        (.number (.ofInt (m.toInt + n.toInt) (k.wider n.kind)))) s := by
  rcases fuel with _ | fuel
  · rfl
  have hsum := eval_sum h hl hk hn fuel (s.store.cell id).type.hint? atStep
  have hassign : (ofFuel .standard fuel).assignExpr (.generated (.name name))
      (.stepped name (.mk (.literal l) atStep)) s =
        ((ofFuel .standard fuel).eval (s.store.cell id).type.hint?
          (.stepped name (.mk (.literal l) atStep)) >>= Run.assign id name) s :=
    Run.bind_ok (Run.cellOf_ok h.visible) _
  by_cases hfuel : fuel < 2
  · rw [if_pos hfuel] at hsum
    rw [if_pos (by omega)]
    exact Run.atSpan_error span (hassign.trans (Run.bind_error hsum _))
  · rw [if_neg hfuel] at hsum
    rw [if_neg (by omega)]
    exact Run.mapReport_congr _ (hassign.trans (Run.bind_ok hsum _))

/-- The increment stores the sum in the kind of the counter. -/
theorem arrives_increment (h : s.Counter name id k m) {l : Literal}
    (hl : Value.ofLiteral l = .number n) (hwider : k.wider n.kind = k) (hk : k.isIntegral = true)
    (span atStep : Span) :
    Arrives (fun fuel => (ofFuel .standard fuel).eval none
      (.increment name (.mk (.literal l) atStep) span)) s
      (.number (.ofInt (m.toInt + n.toInt) k))
      (s.storing id (.number (.ofInt (m.toInt + n.toInt) k))) := by
  filter_upwards [Filter.eventually_ge_atTop 3] with fuel hfuel
  rw [eval_increment h hl hk (NumericKind.isIntegral_right hwider hk), if_neg (by omega), hwider]
  exact Run.atSpan_ok span (h.assign name (Number.kind_ofInt _ _) hk)

end Evaluator

end BasicScript
