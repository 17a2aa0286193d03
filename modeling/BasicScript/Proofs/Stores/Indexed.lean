import BasicScript.Proofs.Stores.Assignment
import BasicScript.Proofs.Stores.Expression
import BasicScript.Proofs.Types.Literal

/-! # Stores at an index

A store at an index evaluates the sequence, the index and then the value. An
array or a composite is shared by its handle: whatever the value has changed in
it stays, but for the place that is stored to. A string is rebuilt from the
characters that it had when it was read. Where the store fails, nothing has
changed since the last operand was evaluated.
-/

namespace BasicScript

/-- A place of an array or a composite holds another value, converted to the type of the place,
which it keeps, and nothing else has changed. -/
structure Store.StoredAt (σ : Store) (target : Value) (place : Nat) (v w : Value) (σ' : Store) :
    Prop where
  converted : ∃ τ type, type.conform σ v = .ok (w, τ) ∧
    ((∃ id, target = .array id ∧ type = (σ.block id).element) ∨
      ∃ decl cells id, target = .data decl cells ∧ cells[place]? = some id ∧
        type = (σ.cell id).type)
  elements : ∃ vs, σ.elements? target = some vs ∧ place < vs.length ∧
    σ'.elements? target = some (vs.set place w)
  array : ∀ id, target = .array id → (σ'.block id).element = (σ.block id).element
  field : ∀ decl cells id, target = .data decl cells → cells[place]? = some id →
    (σ'.cell id).type = (σ.cell id).type ∧ (σ'.cell id).constant = (σ.cell id).constant
  spares : σ.Spares σ' (fun id => ∃ decl cells, target = .data decl cells ∧
    cells[place]? = some id) fun id => target = .array id

/-- A cell holds a text with another character at one place, and nothing else has changed. -/
structure Store.Respelled (σ : Store) (id : CellId) (text : String) (place : Nat) (c : Char)
    (σ' : Store) : Prop where
  bound : place < text.toList.length
  cell : σ'.cell id = { σ.cell id with value := .string (String.ofList (text.toList.set place c)) }
  spares : σ.Spares σ' (· = id) fun _ => False

/-- Place that an index stands for. -/
def Value.place? (index : Value) : Option Nat :=
  (index.integral?.filter fun n => 0 ≤ n).map Int.toNat

/-- A store through an expression that has come out as a value asks for what to store there: arrays
do at all places, composites at those of their fields, and strings only in variables. -/
def Expr.asksAt (target : Expr) (place : Nat) : Value → Bool
  | .array _ => true
  | .data decl cells => place < cells.length && place < decl.fields.length
  | .string _ => match target.kind with
    | .name _ => true
    | _ => false
  | _ => false

/-- Place for which a store asks for a value. -/
def Expr.storesAt? (target : Expr) (t index : Value) : Option Nat :=
  index.place?.filter fun place => target.asksAt place t

/-- Type that a value is written for at a place. -/
def Store.hintAt (σ : Store) (place : Nat) : Value → Option Ty
  | .array id => (σ.block id).element.hint?
  | .data _ cells => cells[place]?.bind fun id => (σ.cell id).type.hint?
  | _ => none

/-- Where a store at an index stands once its last operand has been evaluated, or has failed. The
value is an operand only if it is asked for. -/
inductive Evaluator.StopsAfter (r : Evaluator) (target index value : Expr) (s : State) :
    State → Prop
  | target {e u} : r.eval none target s = .error e u → StopsAfter r target index value s u
  | index {t s₁ e u} : r.eval none target s = .ok t s₁ → r.eval none index s₁ = .error e u →
      StopsAfter r target index value s u
  | place {t s₁ i s₂} : r.eval none target s = .ok t s₁ → r.eval none index s₁ = .ok i s₂ →
      target.storesAt? t i = none → StopsAfter r target index value s s₂
  | value {t s₁ i s₂ place} : r.eval none target s = .ok t s₁ →
      r.eval none index s₁ = .ok i s₂ → target.storesAt? t i = some place →
        StopsAfter r target index value s ((r.eval (s₂.store.hintAt place t) value).state s₂)

/-- The three operands of a store at an index have been evaluated in their order. -/
structure Evaluator.Operands (r : Evaluator) (target index value : Expr) (s : State)
    (t i v : Value) (place : Nat) (u : State) : Prop where
  evaluated : ∃ s₁ s₂, r.eval none target s = .ok t s₁ ∧ r.eval none index s₁ = .ok i s₂ ∧
    r.eval (s₂.store.hintAt place t) value s₂ = .ok v u
  place : target.storesAt? t i = some place

/-- What a store at an index may leave once the operands have been evaluated: the place of an array
or a composite holds the value, or the variable holds the text that the target was, with another
character at the place. -/
inductive Evaluator.Settles (r : Evaluator) (target index value : Expr) (s : State) (w : Value) :
    State → Prop
  | place {t i v : Value} {place : Nat} {u : State} {σ : Store} :
      r.Operands target index value s t i v place u → u.store.StoredAt t place v w σ →
        getIndex t i { u with store := σ } = .ok w { u with store := σ } →
          Settles r target index value s w { u with store := σ }
  | character {i : Value} {text : String} {c : Char} {place : Nat} {u : State} {σ : Store}
      {name : String} {id : CellId} : target.kind = .name name → s.env.cell? name = some id →
        u.env.cell? name = some id → s.store.read id = .string text →
          r.Operands target index value s (.string text) i (.char c) place u → w = .char c →
            u.store.Respelled id text place c σ →
              getIndex (σ.read id) i { u with store := σ } = .ok w { u with store := σ } →
                Settles r target index value s w { u with store := σ }

/-- A store at an index has settled, or has changed nothing since the last operand. -/
def Evaluator.Outcome (r : Evaluator) (target index value : Expr) (s : State) :
    EStateM.Result Stop State Value → Prop
  | .ok w u => r.Settles target index value s w u
  | .error _ u => ∃ s' σ, r.StopsAfter target index value s s' ∧ s'.store.Adds σ ∧
      u = { s' with store := σ }

/-- How a store into a sequence that is at hand can end: no value is asked for, the value fails, it
is not stored, or storage is as claimed. -/
inductive Evaluator.Stores (r : Evaluator) (target : Expr) (t index : Value) (value : Expr)
    (Q : Nat → Value → Value → State → Store → Prop) (x : Run Value) (s : State) : Prop
  | unplaced {e} : target.storesAt? t index = none → x s = .error e s →
      Stores r target t index value Q x s
  | unvalued {n e u} : target.storesAt? t index = some n →
      r.eval (s.store.hintAt n t) value s = .error e u → x s = .error e u →
        Stores r target t index value Q x s
  | unstored {n v u e σ} : target.storesAt? t index = some n →
      r.eval (s.store.hintAt n t) value s = .ok v u → u.store.Adds σ →
        x s = .error e { u with store := σ } → Stores r target t index value Q x s
  | stored {n v u w σ} : target.storesAt? t index = some n →
      r.eval (s.store.hintAt n t) value s = .ok v u → Q n v w u σ →
        x s = .ok w { u with store := σ } → Stores r target t index value Q x s

namespace Store

variable {σ τ : Store} {id : ArrayId} {place : Nat} {v w : Value}

theorem element_setElement :
    ((σ.setElement id place w).block id).element = (σ.block id).element := by
  unfold block setElement
  rw [Array.getElem?_modify, if_pos rfl]
  cases σ.arrays[id.index]? <;> rfl

theorem elements_setElement (h : id.index < σ.arrays.size) :
    (σ.setElement id place w).elements id = (σ.elements id).set place w := by
  unfold elements block setElement
  simp only [Array.getElem?_modify, if_true, Array.getElem?_eq_getElem h, Option.map_some,
    Option.getD_some, Array.toList_setIfInBounds]

/-- The elements of an array after one of them has been replaced. -/
theorem storedAt_array (hid : id.index < σ.arrays.size)
    (hconform : (σ.block id).element.conform σ v = .ok (w, τ))
    (hplace : place < (σ.elements id).length) :
    σ.StoredAt (.array id) place v w (τ.setElement id place w) := by
  have hadds := Ty.conform_adds hconform
  have hid' : id.index < τ.arrays.size := Nat.lt_of_lt_of_le hid hadds.size_le
  refine ⟨⟨τ, _, hconform, .inl ⟨id, rfl, rfl⟩⟩, ⟨_, rfl, hplace, ?_⟩, ?_, nofun, ?_⟩
  · show some ((τ.setElement id place w).elements id) = _
    rw [elements_setElement hid', hadds.elements hid]
  · rintro _ ⟨⟩
    rw [element_setElement, hadds.block hid]
  · refine ⟨congrArg Array.size hadds.cells, fun other _ => ?_, fun other hother hne => ?_⟩
    · show τ.cells[other.index]? = _
      rw [hadds.cells]
    · have hindex : id.index ≠ other.index := fun heq =>
        hne (congrArg (fun i => Value.array ⟨i⟩) heq)
      show (τ.arrays.modify id.index _)[other.index]? = _
      rw [Array.getElem?_modify, if_neg hindex]
      exact hadds.getElem? hother

/-- A function that differs at one element of a list without duplicates makes the same list but for
the place of that element. -/
theorem map_eq_set {α β : Type} {f g : α → β} {as : List α} {a : α} (has : as.Nodup)
    (ha : as[place]? = some a) (hg : ∀ b, b ≠ a → g b = f b) :
    as.map g = (as.map f).set place (g a) := by
  refine List.ext_getElem? fun i => ?_
  rw [List.getElem?_map, List.getElem?_set, List.length_map, List.getElem?_map]
  split
  · next hi =>
    subst hi
    rw [if_pos (List.getElem?_eq_some_iff.mp ha).1, ha, Option.map_some]
  · next hi =>
    cases hb : as[i]? with
    | none => rfl
    | some b =>
      have hne : b ≠ a := by
        rintro rfl
        obtain ⟨hi', hb⟩ := List.getElem?_eq_some_iff.mp hb
        obtain ⟨hplace, ha⟩ := List.getElem?_eq_some_iff.mp ha
        exact hi ((List.Nodup.getElem_inj_iff has).mp (ha.trans hb.symm))
      rw [Option.map_some, Option.map_some, hg b hne]

/-- The fields of a composite after one of them has been assigned. -/
theorem storedAt_field {decl : DataDecl} {cells : List CellId} {cell : CellId}
    (hcells : cells.Nodup) (hplace : cells[place]? = some cell)
    (hcell : cell.index < σ.cells.size)
    (hconform : (σ.cell cell).type.conform σ v = .ok (w, τ)) :
    σ.StoredAt (.data decl cells) place v w (τ.write cell w) := by
  have hadds := Ty.conform_adds hconform
  have hread : (τ.write cell w).read cell = w := read_write (by rwa [hadds.cells])
  have hothers : ∀ id, id ≠ cell → (τ.write cell w).read id = σ.read id := by
    intro id hne
    rw [read, cell_write_ne hne, hadds.cell]
    rfl
  refine ⟨⟨τ, _, hconform, .inr ⟨decl, cells, cell, rfl, hplace, rfl⟩⟩, ⟨_, rfl, ?_, ?_⟩, ?_,
    ?_, ?_⟩
  · rw [List.length_map]
    exact (List.getElem?_eq_some_iff.mp hplace).1
  · show some (cells.map _) = _
    rw [map_eq_set hcells hplace hothers, hread]
  · rintro _ ⟨⟩
  · rintro _ _ id ⟨⟩ hid
    obtain rfl : cell = id := Option.some.inj (hplace.symm.trans hid)
    rw [cell_write (by rwa [hadds.cells]), hadds.cell]
    exact ⟨rfl, rfl⟩
  · exact (hadds.spares _ _).write ⟨decl, cells, rfl, hplace⟩ w

end Store

/-- A string is converted to no other value. -/
theorem Ty.conform_string {t : Ty} {σ τ : Store} {text : String} {w : Value}
    (h : t.conform σ (.string text) = .ok (w, τ)) : w = .string text ∧ τ = σ := by
  have hsame : t.coerce σ (.string text) = .same := by
    cases t with
    | prim p =>
      simp only [coerce]
      cases p.kind? <;> rfl
    | _ => rfl
  have hresult := (conform_ok.mp h).1
  rw [hsame] at hresult
  cases hresult
  exact ⟨rfl, rfl⟩

namespace Run

variable {α β : Type} {x : Run α} {f : α → Run β} {s u : State} {e : Stop}

/-- Whether a run ends with a result. -/
def succeeds (x : Run α) (s : State) : Bool :=
  match x s with
  | .ok .. => true
  | .error .. => false

theorem exists_of_succeeds (h : x.succeeds s = true) :
    ∃ a t, x s = .ok a t := by
  unfold succeeds at h
  cases hx : x s with
  | ok a t => exact ⟨a, t, rfl⟩
  | error e t =>
    rw [hx] at h
    exact nomatch h

/-- A fault that shows a value stops the run, even where the value has no text. -/
theorem text_fails (g : String → Fault) (v : Value) (s : State) :
    ∃ e, (do Run.fail (g (← Run.text v)) : Run α) s = .error e s := by
  rcases Run.text_cases v s with ⟨-, htext⟩ | ⟨-, htext⟩
  · exact ⟨_, Run.bind_ok htext _⟩
  · exact ⟨_, Run.bind_error htext _⟩

/-- An index stands for a place, or is a fault. -/
theorem position_cases (index : Value) (s : State) :
    (∃ n, index.place? = some n ∧ Run.position index s = .ok n s) ∨
      index.place? = none ∧ ∃ e, Run.position index s = .error e s := by
  unfold Run.position Value.place?
  cases index.integral? with
  | none => exact .inr ⟨rfl, text_fails _ index s⟩
  | some n =>
    by_cases hn : 0 ≤ n
    · simp only [hn, if_true, Option.filter_some, decide_true]
      exact .inl ⟨n.toNat, rfl, rfl⟩
    · simp only [hn, if_false, Option.filter_some, decide_false]
      exact .inr ⟨rfl, text_fails _ index s⟩

theorem atIndex_cases (index : Value) (found : Option α) (s : State) :
    (∃ a, found = some a ∧ Run.atIndex index found s = .ok a s) ∨
      found = none ∧ ∃ e, Run.atIndex index found s = .error e s := by
  cases found with
  | some a => exact .inl ⟨a, rfl, rfl⟩
  | none => exact .inr ⟨rfl, text_fails _ index s⟩

theorem cellOf_error {name : String} (h : s.env.cell? name = none) :
    ∃ stop, Run.cellOf name s = .error stop s := by
  show ∃ stop, Run.require _ (s.env.cell? name) s = _
  rw [h]
  exact ⟨_, rfl⟩

/-- How a store into an array ends once the value is known. -/
theorem replace_cases {id : ArrayId} {v : Value} (hid : id.index < s.store.arrays.size)
    (index : Value) (place : Nat) :
    let x : Run Value := do
      let w ← Run.conform (s.store.block id).element v
      if place < (← Run.read fun s => (s.store.block id).values.size) then
        Run.modifyStore (·.setElement id place w)
        pure w
      else Run.atIndex index none
    (∃ w σ, s.store.StoredAt (.array id) place v w σ ∧ x s = .ok w { s with store := σ }) ∨
      ∃ e σ, s.store.Adds σ ∧ x s = .error e { s with store := σ } := by
  intro x
  rcases Run.fit_cases (s.store.block id).element v (fun m got => .ofMismatch _ got m) s with
    ⟨w, τ, hconform, hfit⟩ | ⟨m, -, hfit⟩
  case inr => exact .inr ⟨_, s.store, .refl _, Run.bind_error hfit _⟩
  have hadds := Ty.conform_adds hconform
  have hsize : (τ.block id).values.size = (s.store.elements id).length := by
    rw [hadds.block hid, ← Array.length_toList]
    rfl
  by_cases hplace : place < (s.store.elements id).length
  · refine .inl ⟨w, _, Store.storedAt_array hid hconform hplace, (Run.bind_ok hfit _).trans ?_⟩
    have hfits : place < (τ.block id).values.size := by rwa [hsize]
    exact congrFun (if_pos hfits) _
  · obtain ⟨e, he⟩ : ∃ e, (Run.atIndex index none : Run Value) { s with store := τ } =
        .error e { s with store := τ } := text_fails _ index _
    refine .inr ⟨e, τ, hadds, (Run.bind_ok hfit _).trans ?_⟩
    have hfits : ¬place < (τ.block id).values.size := by rwa [hsize]
    exact (congrFun (if_neg hfits) _).trans he

/-- How a store into a string ends once the character is known: in the variable that bears the
name, whatever it holds by then. -/
theorem respell_cases (hs : s.Typed) (name text : String) (index : Value) (place : Nat) (c : Char) :
    let x : Run Value :=
      if place < text.toList.length then do
        let cell ← Run.cellOf name
        let _ ← Run.assign cell name (.string (String.ofList (text.toList.set place c)))
        pure (.char c)
      else Run.atIndex index none
    (∃ id σ, s.env.cell? name = some id ∧ s.store.Respelled id text place c σ ∧
      x s = .ok (.char c) { s with store := σ }) ∨ ∃ e, x s = .error e s := by
  intro x
  by_cases hplace : place < text.toList.length
  case neg =>
    obtain ⟨e, he⟩ : ∃ e, (Run.atIndex index none : Run Value) s = .error e s :=
      text_fails _ index s
    exact .inr ⟨e, (congrFun (if_neg hplace) s).trans he⟩
  have hx := congrFun (if_pos hplace : x = _) s
  let spelled := Value.string (String.ofList (text.toList.set place c))
  cases hid : s.env.cell? name with
  | none =>
    obtain ⟨e, he⟩ := cellOf_error hid
    exact .inr ⟨e, hx.trans (Run.bind_error he _)⟩
  | some id =>
    have hafter := hx.trans (Run.bind_ok (Run.cellOf_ok hid) _)
    rcases Run.assign_cases id name spelled s with ⟨w, τ, -, -, hconform, hassign⟩ | ⟨f, hassign⟩
    · obtain ⟨rfl, rfl⟩ := Ty.conform_string hconform
      have hspares : s.store.Spares (s.store.write id spelled) (· = id) fun _ => False :=
        ((Store.Adds.refl s.store).spares (· = id) fun _ => False).write rfl spelled
      exact .inl ⟨id, _, rfl, ⟨hplace, Store.cell_write (hs.visible hid), hspares⟩,
        hafter.trans (Run.bind_ok hassign _)⟩
    · exact .inr ⟨_, hafter.trans (Run.bind_error hassign _)⟩

end Run

/-- What leaves the tables alone leaves the names with their variables. -/
theorem Frame.cell? {s t : State} (h : Frame False s t) (hs : s.env.Nested) (name : String) :
    t.env.cell? name = s.env.cell? name :=
  ((State.DeclaresOnly.ofFrame h).sameNames hs.current.2).cell name

namespace Expr

variable {target : Expr} {t index : Value} {place : Nat}

theorem storesAt?_of_unplaced (h : index.place? = none) : target.storesAt? t index = none := by
  rw [storesAt?, h, Option.filter_none]

theorem storesAt?_of_unasked (h : ∀ n, target.asksAt n t = false) :
    target.storesAt? t index = none := by
  rw [storesAt?, Option.filter_eq_none_iff]
  exact fun n _ => Bool.not_eq_true _ ▸ h n

theorem storesAt?_of_place (h : index.place? = some place) :
    target.storesAt? t index = if target.asksAt place t = true then some place else none := by
  rw [storesAt?, h, Option.filter_some]

/-- A composite asks for a value where it has a cell and its declaration a field. -/
theorem storesAt?_data {decl : DataDecl} {cells : List CellId} (h : index.place? = some place) :
    target.storesAt? (.data decl cells) index =
      if place < cells.length ∧ place < decl.fields.length then some place else none := by
  simp only [storesAt?_of_place h, asksAt, Bool.and_eq_true, decide_eq_true_eq]

theorem place?_of_storesAt? (h : target.storesAt? t index = some place) :
    index.place? = some place :=
  (Option.filter_eq_some_iff.mp h).1

end Expr

namespace Evaluator

variable {r : Evaluator} {s s₁ s₂ : State} {target value : Expr} {t i index : Value}

theorem setArrayElement_stores (hr : r.Sound) (hs : s.Typed) {id : ArrayId}
    (hid : s.Holds (.array id)) :
    r.Stores target (.array id) index value
      (fun n v w u σ => u.store.StoredAt (.array id) n v w σ)
      (r.setArrayElement id index value) s := by
  rcases Run.position_cases index s with ⟨n, hn, hposition⟩ | ⟨hn, e, hposition⟩
  case inr => exact .unplaced (Expr.storesAt?_of_unplaced hn) (Run.bind_error hposition _)
  have hat : target.storesAt? (.array id) index = some n := Expr.storesAt?_of_place hn
  let element := (s.store.block id).element
  cases hvalue : r.eval element.hint? value s with
  | error e u =>
    refine .unvalued hat hvalue ((Run.bind_ok hposition _).trans ?_)
    exact Run.bind_error hvalue _
  | ok v u =>
    obtain ⟨-, hgrows, -⟩ := hr.eval element.hint? value s hs
    rw [Run.state_ok hvalue] at hgrows
    have helement : (u.store.block id).element = element := (hgrows.store.block hid).element
    have hbefore : r.setArrayElement id index value s = _ :=
      (Run.bind_ok hposition _).trans (Run.bind_ok hvalue _)
    have hcases := Run.replace_cases (v := v) (hid.grows hgrows) index n
    rw [helement] at hcases
    rcases hcases with ⟨w, σ, hstored, hrun⟩ | ⟨e, σ, hadds, hrun⟩
    · exact .stored hat hvalue hstored (hbefore.trans hrun)
    · exact .unstored hat hvalue hadds (hbefore.trans hrun)

theorem setFieldAt_stores (hr : r.Sound) (hs : s.Typed) {decl : DataDecl}
    {cells : List CellId} (ht : s.Holds (.data decl cells)) (hcells : cells.Nodup) :
    r.Stores target (.data decl cells) index value
      (fun n v w u σ => u.store.StoredAt (.data decl cells) n v w σ)
      (r.setFieldAt decl cells index value) s := by
  rcases Run.position_cases index s with ⟨n, hn, hposition⟩ | ⟨hn, e, hposition⟩
  case inr => exact .unplaced (Expr.storesAt?_of_unplaced hn) (Run.bind_error hposition _)
  have hasks : target.storesAt? (.data decl cells) index =
      if n < cells.length ∧ n < decl.fields.length then some n else none :=
    Expr.storesAt?_data hn
  rcases Run.atIndex_cases index cells[n]? s with ⟨cell, hcell, hat⟩ | ⟨hcell, e, hat⟩
  case inr =>
    have hout : ¬n < cells.length := Nat.not_lt_of_le (List.getElem?_eq_none_iff.mp hcell)
    exact .unplaced (hasks.trans (if_neg fun h => hout h.1)) ((Run.bind_ok hposition _).trans
      (Run.bind_error hat _))
  rcases Run.atIndex_cases index decl.fields[n]? s with ⟨field, hfield, hname⟩ | ⟨hfield, e, hname⟩
  case inr =>
    have hout : ¬n < decl.fields.length := Nat.not_lt_of_le (List.getElem?_eq_none_iff.mp hfield)
    exact .unplaced (hasks.trans (if_neg fun h => hout h.2)) ((Run.bind_ok hposition _).trans
      ((Run.bind_ok hat _).trans (Run.bind_error hname _)))
  have hplace : target.storesAt? (.data decl cells) index = some n :=
    hasks.trans (if_pos ⟨(List.getElem?_eq_some_iff.mp hcell).1,
      (List.getElem?_eq_some_iff.mp hfield).1⟩)
  let hint := (s.store.cell cell).type.hint?
  have hhint : s.store.hintAt n (.data decl cells) = hint := by
    simp only [Store.hintAt, hcell, Option.bind_some]
    rfl
  have hbefore : r.setFieldAt decl cells index value s =
      (r.eval hint value >>= fun v => Run.assign cell field.name v) s :=
    (Run.bind_ok hposition _).trans ((Run.bind_ok hat _).trans (Run.bind_ok hname _))
  cases hvalue : r.eval hint value s with
  | error e u =>
    exact .unvalued hplace (hhint ▸ hvalue) (hbefore.trans (Run.bind_error hvalue _))
  | ok v u =>
    have hrun := hbefore.trans (Run.bind_ok hvalue _)
    rcases Run.assign_cases cell field.name v u with
      ⟨w, τ, -, -, hconform, hassign⟩ | ⟨f, hassign⟩
    · obtain ⟨-, hgrows, -⟩ := hr.eval hint value s hs
      rw [Run.state_ok hvalue] at hgrows
      have hbound : cell.index < u.store.cells.size := by
        obtain ⟨hi, rfl⟩ := List.getElem?_eq_some_iff.mp hcell
        have hfield := (List.forall₂_iff_get.mp ht.2).2 n (ht.2.length_eq ▸ hi) hi
        exact Nat.lt_of_lt_of_le hfield.bound hgrows.store.cells.size_le
      exact .stored hplace (hhint ▸ hvalue) (Store.storedAt_field hcells hcell hbound hconform)
        (hrun.trans hassign)
    · exact .unstored hplace (hhint ▸ hvalue) (.refl _) (hrun.trans hassign)

/-- A character is replaced in the variable that the target names, whatever it holds by then. -/
theorem setCharacter_stores (hr : r.Sound) (hs : s.Typed) (target : Expr) (text : String) :
    r.Stores target (.string text) index value
      (fun n v w u σ => ∃ name id c, target.kind = .name name ∧
        u.env.cell? name = some id ∧ v = .char c ∧ w = .char c ∧
          u.store.Respelled id text n c σ)
      (r.setCharacter target text index value) s := by
  obtain ⟨kind, span⟩ := target
  by_cases hkind : ∃ name, kind = .name name
  case neg =>
    have hrun : r.setCharacter (.mk kind span) text index value =
        Run.atSpan span (Run.fail .assignedToNonReference) := by
      cases kind with
      | name name => exact absurd ⟨name, rfl⟩ hkind
      | _ => rfl
    refine .unplaced (Expr.storesAt?_of_unasked fun n => ?_) (congrFun hrun s)
    cases kind with
    | name name => exact absurd ⟨name, rfl⟩ hkind
    | _ => rfl
  obtain ⟨name, rfl⟩ := hkind
  rcases Run.position_cases index s with ⟨n, hn, hposition⟩ | ⟨hn, e, hposition⟩
  case inr => exact .unplaced (Expr.storesAt?_of_unplaced hn) (Run.bind_error hposition _)
  have hat : (Expr.mk (.name name) span).storesAt? (.string text) index = some n :=
    Expr.storesAt?_of_place hn
  cases hvalue : r.eval none value s with
  | error e u =>
    exact .unvalued hat hvalue ((Run.bind_ok hposition _).trans (Run.bind_error hvalue _))
  | ok v u =>
    have hbefore : r.setCharacter (.mk (.name name) span) text index value s = _ :=
      (Run.bind_ok hposition _).trans (Run.bind_ok hvalue _)
    cases v with
    | char c =>
      have hu := (hr.eval none value s hs).1
      rw [Run.state_ok hvalue] at hu
      rcases Run.respell_cases hu name text index n c with
        ⟨id, σ, hid, hspelled, hrun⟩ | ⟨e, hrun⟩
      · exact .stored hat hvalue ⟨name, id, c, rfl, hid, rfl, rfl, hspelled⟩ (hbefore.trans hrun)
      · exact .unstored hat hvalue (.refl _) (hbefore.trans hrun)
    | _ => exact .unstored hat hvalue (.refl _) (hbefore.trans rfl)

/-- What is read at an index is the element at the place that the index stands for. -/
theorem getIndex_element {t w : Value} {vs : List Value} {n : Nat} (hn : index.place? = some n)
    (hvs : s.store.elements? t = some vs) (hw : vs[n]? = some w) :
    getIndex t index s = .ok w s := by
  have hposition : Run.position index s = .ok n s := by
    rcases Run.position_cases index s with ⟨n', hn', hposition⟩ | ⟨hnone, -⟩
    · cases hn.symm.trans hn'
      exact hposition
    · exact nomatch hn.symm.trans hnone
  have hat : ∀ {found : Option Value}, found = some w → Run.atIndex index found s = .ok w s := by
    rintro _ rfl
    rfl
  cases t with
  | string text =>
    cases hvs
    rw [List.getElem?_map] at hw
    exact (Run.bind_ok hposition _).trans (hat hw)
  | array id =>
    cases hvs
    have hfound : (s.store.block id).values[n]? = some w := by
      rwa [← Array.getElem?_toList]
    exact (Run.bind_ok hposition _).trans (hat hfound)
  | data decl cells =>
    cases hvs
    rw [List.getElem?_map] at hw
    exact (Run.bind_ok hposition _).trans (hat hw)
  | _ => exact nomatch hvs

/-- A name evaluates to what its variable holds, and changes nothing. -/
theorem eval_name {library : Library} {fuel : Nat} {hint : Option Ty} {e : Expr} {name : String}
    {t : Value} {u : State} (he : e.kind = .name name)
    (h : (ofFuel library fuel).eval hint e s = .ok t u) :
    ∃ id, s.env.cell? name = some id ∧ t = s.store.read id := by
  cases fuel with
  | zero => exact nomatch h
  | succ fuel =>
    cases hid : s.env.cell? name with
    | some id =>
      have hkind : (ofFuel library fuel).exprKind hint e.span e.kind s =
          .ok (s.store.read id) s := by
        rw [he]
        exact Run.bind_ok (Run.cellOf_ok hid) _
      cases (Run.atSpan_ok e.span hkind).symm.trans h
      exact ⟨id, rfl, rfl⟩
    | none =>
      obtain ⟨stop, hcell⟩ := Run.cellOf_error hid
      have hkind : (ofFuel library fuel).exprKind hint e.span e.kind s = .error stop s := by
        rw [he]
        exact Run.bind_error hcell _
      exact nomatch (Run.atSpan_error e.span hkind).symm.trans h

theorem Stores.outcome {Q : Nat → Value → Value → State → Store → Prop} {x : Run Value}
    {index : Expr} (ht : r.eval none target s = .ok t s₁) (hi : r.eval none index s₁ = .ok i s₂)
    (h : r.Stores target t i value Q x s₂)
    (hQ : ∀ {n v w u σ}, r.Operands target index value s t i v n u → Q n v w u σ →
      r.Settles target index value s w { u with store := σ }) :
    r.Outcome target index value s (x s₂) := by
  cases h with
  | unplaced hat hx =>
    rw [hx]
    exact ⟨s₂, s₂.store, .place ht hi hat, .refl _, rfl⟩
  | unvalued hat hvalue hx =>
    rw [hx]
    have hstop : r.StopsAfter target index value s _ := .value ht hi hat
    rw [Run.state_error hvalue] at hstop
    exact ⟨_, _, hstop, .refl _, rfl⟩
  | unstored hat hvalue hadds hx =>
    rw [hx]
    have hstop : r.StopsAfter target index value s _ := .value ht hi hat
    rw [Run.state_ok hvalue] at hstop
    exact ⟨_, _, hstop, hadds, rfl⟩
  | stored hat hvalue hq hx =>
    rw [hx]
    exact hQ ⟨⟨s₁, s₂, ht, hi, hvalue⟩, hat⟩ hq

/-- After a store into an array or a composite, the place reads back. -/
theorem Operands.settles_place {index : Expr} {n : Nat} {v w : Value} {u : State} {σ : Store}
    (h : r.Operands target index value s t i v n u) (hstored : u.store.StoredAt t n v w σ) :
    r.Settles target index value s w { u with store := σ } := by
  obtain ⟨vs, -, hn, hvs⟩ := hstored.elements
  refine .place h hstored (getIndex_element (Expr.place?_of_storesAt? h.place) hvs ?_)
  rw [List.getElem?_set_self hn]

/-- Operands leave each name with its variable. -/
theorem Operands.cell? {fuel : Nat} {index : Expr} {n : Nat} {v : Value} {u : State}
    (h : (ofFuel .standard fuel).Operands target index value s t i v n u) (hs : s.env.Nested)
    (name : String) : u.env.cell? name = s.env.cell? name := by
  obtain ⟨s₁, s₂, ht, hi, hvalue⟩ := h.evaluated
  have hevals := ofFuel_precedes_self (c := False) Library.standard_framed fuel
  have hframe : ∀ {hint e a s u}, (ofFuel .standard fuel).eval hint e s = .ok a u →
      Frame False s u := fun hrun => (hevals.eval _ _).frame_ok hrun
  exact (((hframe ht).trans (hframe hi)).trans (hframe hvalue)).cell? hs name

/-- After a store into a string, the place reads back from the variable. -/
theorem Operands.settles_character {fuel : Nat} {index : Expr} {n : Nat} {text name : String}
    {c : Char} {u : State} {σ : Store} {id : CellId}
    (h : (ofFuel .standard fuel).Operands target index value s (.string text) i (.char c) n u)
    (hs : s.env.Nested) (hkind : target.kind = .name name) (hid : u.env.cell? name = some id)
    (hspelled : u.store.Respelled id text n c σ) :
    (ofFuel .standard fuel).Settles target index value s (.char c) { u with store := σ } := by
  obtain ⟨s₁, s₂, ht, -, -⟩ := h.evaluated
  obtain ⟨id₀, hid₀, htext⟩ := eval_name hkind ht
  have hsame : s.env.cell? name = some id := (h.cell? hs name).symm.trans hid
  cases hid₀.symm.trans hsame
  have hread : σ.read id = .string (String.ofList (text.toList.set n c)) :=
    congrArg Cell.value hspelled.cell
  refine .character hkind hsame hid htext.symm h rfl hspelled ?_
  rw [hread]
  refine getIndex_element (Expr.place?_of_storesAt? h.place) rfl ?_
  rw [String.toList_ofList, List.getElem?_map, List.getElem?_set_self hspelled.bound]
  rfl

theorem setIndexExpr_outcome (fuel : Nat) {settings : Settings} (h : s.Amid settings)
    (target index value : Expr) :
    (ofFuel .standard fuel).Outcome target index value s
      ((ofFuel .standard fuel).setIndexExpr target index value s) := by
  let r := ofFuel .standard fuel
  have hr : r.Sound := standard_sound fuel
  have hseparates : r.Separates := ofFuel_separates fuel
  cases ht : r.eval none target s with
  | error e u =>
    rw [show r.setIndexExpr target index value s = _ from Run.bind_error ht _]
    exact ⟨u, u.store, .target ht, .refl _, rfl⟩
  | ok t s₁ =>
    have hafter : r.setIndexExpr target index value s = _ := Run.bind_ok ht _
    cases hi : r.eval none index s₁ with
    | error e u =>
      rw [hafter, Run.bind_error hi _]
      exact ⟨u, u.store, .index ht hi, .refl _, rfl⟩
    | ok i s₂ =>
      obtain ⟨hs₁, -, ht'⟩ := hr.eval none target s h.typed
      rw [Run.state_ok ht] at hs₁
      obtain ⟨hs₂, hgrows, -⟩ := hr.eval none index s₁ hs₁
      rw [Run.state_ok hi] at hs₂ hgrows
      have hholds : s₂.Holds t := (ht' t s₁ ht).grows hgrows
      have hseparate : t.Separate := (hseparates.eval none target s h.separate).2 t s₁ ht
      rw [hafter, Run.bind_ok hi _]
      cases t with
      | array id =>
        exact (setArrayElement_stores hr hs₂ hholds).outcome ht hi fun hop hq =>
          hop.settles_place hq
      | data decl cells =>
        exact (setFieldAt_stores hr hs₂ hholds hseparate).outcome ht hi fun hop hq =>
          hop.settles_place hq
      | string text =>
        refine (setCharacter_stores hr hs₂ target text).outcome ht hi fun hop hq => ?_
        obtain ⟨name, id, c, hkind, hid, rfl, rfl, hspelled⟩ := hq
        exact hop.settles_character h.nested hkind hid hspelled
      | _ =>
        refine ⟨s₂, s₂.store, .place ht hi ?_, .refl _, rfl⟩
        exact Expr.storesAt?_of_unasked fun _ => rfl

/-- A store at an index evaluates its three operands, and then an array or a composite holds the
value at the place, converted to the type of the place, or a variable holds the string that the
target was, with another character at the place; nothing else has changed since, and the place reads
back. A store that fails has changed nothing since its last operand was evaluated. -/
theorem setIndex_settles (fuel : Nat) (hint : Option Ty) {settings : Settings} {s : State}
    (h : s.Amid settings) {e target index value : Expr}
    (he : e.kind = .setIndex target index value) :
    let r := ofFuel .standard fuel
    (∀ w u, r.expr hint e s = .ok w u → r.Settles target index value s w u) ∧
    ∀ stop u, r.expr hint e s = .error stop u → ∃ s' σ, r.StopsAfter target index value s s' ∧
      s'.store.Adds σ ∧ u = { s' with store := σ } := by
  intro r
  have hkind : r.exprKind hint e.span e.kind s = r.setIndexExpr target index value s := by
    rw [he]
    rfl
  have houtcome := setIndexExpr_outcome fuel h target index value
  cases hrun : r.setIndexExpr target index value s with
  | ok w u =>
    have hok := Run.atSpan_ok e.span (hkind.trans hrun)
    rw [hrun] at houtcome
    refine ⟨fun w' u' hw => ?_, fun stop u' he' => nomatch hok.symm.trans he'⟩
    cases hok.symm.trans hw
    exact houtcome
  | error stop u =>
    have hfails := Run.atSpan_error e.span (hkind.trans hrun)
    rw [hrun] at houtcome
    refine ⟨fun w u' hw => (nomatch hfails.symm.trans hw), fun stop' u' he' => ?_⟩
    cases hfails.symm.trans he'
    exact houtcome

/-- The expression that stores at a place of a variable. -/
def storingAt (name : String) (place : Int32) (value : Expr) : Expr :=
  .generated (.setIndex (.generated (.name name)) (.generated (.literal (.int place))) value)

/-- After `var xs as int[] = [1, 2]`, the store `xs[1] = 7` succeeds, and `xs[2] = 7` fails. -/
theorem setIndex_settles_declaringArray :
    let s := ((interrupted .standard (fun _ => false) 4).run declaringArray).state
      (.initial ⟨false, none, true⟩)
    let r := ofFuel .standard 2
    let seven := Expr.generated (.literal (.int 7))
    let store := fun place => r.expr none (storingAt "xs" place seven) s
    Reaches .standard (.initial ⟨false, none, true⟩) s ∧
    (∃ w u, store 1 = .ok w u ∧ u.store.text (.array ⟨0⟩) = "[1, 7]" ∧
      r.Settles (.generated (.name "xs")) (.generated (.literal (.int 1))) seven s w u) ∧
    ∃ stop u s' σ, store 2 = .error stop u ∧ u.store.text (.array ⟨0⟩) = "[1, 2]" ∧
      r.StopsAfter (.generated (.name "xs")) (.generated (.literal (.int 2))) seven s s' ∧
        s'.store.Adds σ ∧ u = { s' with store := σ } := by
  intro s r seven store
  have h : Reaches .standard (.initial ⟨false, none, true⟩) s :=
    .run declaringArray (fun _ => false) 4 .refl
  have hstores := fun place => setIndex_settles 2 none h.amid (e := storingAt "xs" place seven) rfl
  obtain ⟨w, u, hok, htext⟩ : ∃ w u, store 1 = .ok w u ∧
      u.store.text (.array ⟨0⟩) = "[1, 7]" := ⟨_, _, rfl, by decide +kernel⟩
  obtain ⟨stop, u', hfails, htext'⟩ : ∃ stop u, store 2 = .error stop u ∧
      u.store.text (.array ⟨0⟩) = "[1, 2]" := ⟨_, _, rfl, by decide +kernel⟩
  obtain ⟨s', σ, hstop, hadds, hu'⟩ := (hstores 2).2 stop u' hfails
  exact ⟨h, ⟨w, u, hok, htext, (hstores 1).1 w u hok⟩,
    stop, u', s', σ, hfails, htext', hstop, hadds, hu'⟩

/-- The program `var s as string = "abc"; sub g() as char { s = "xyz"; yield 'q' }`. -/
def respelling : List Stmt :=
  [.generated (.declare "s" (.prim .string) (.generated (.literal (.string "abc"))) false),
    .generated (.sub (.mk "g" [] (.prim .char)
      [.generated (.expression (.generated (.binary .assign (.generated (.name "s"))
          (.generated (.literal (.string "xyz")))))),
        .generated (.yield (.generated (.literal (.char 'q'))))] false))]

/-- The store `s[0] = g()`, of which the value respells `s`, brings back the characters that `s` had
before: once the value is there `s` is `xyz`, and then the store makes it `qbc`. -/
theorem setIndex_brings_back :
    let s := ((interrupted .standard (fun _ => false) 8).run respelling).state
      (.initial ⟨false, none, true⟩)
    let r := ofFuel .standard 8
    let value := Expr.generated (.invoke "g" [])
    let run := r.expr none (storingAt "s" 0 value)
    let u := (r.eval none value).state s
    let t := run.state s
    let spells := fun (t : State) (place : Nat) =>
      ((t.store.elements? (t.store.read ⟨0⟩)).bind (·[place]?)).map t.store.text
    Reaches .standard (.initial ⟨false, none, true⟩) s ∧ s.env.cell? "s" = some ⟨0⟩ ∧
      run.succeeds s = true ∧ u.store.text (u.store.read ⟨0⟩) = "xyz" ∧
        t.store.text (t.store.read ⟨0⟩) = "qbc" ∧ spells t 1 ≠ spells u 1 := by
  intro s r value run u t spells
  refine ⟨.run respelling (fun _ => false) 8 .refl, ?_⟩
  decide +kernel

end Evaluator

end BasicScript
