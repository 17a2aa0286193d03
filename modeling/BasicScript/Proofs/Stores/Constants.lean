import BasicScript.Proofs.Defaults.Order
import BasicScript.Proofs.Stores.Sequence
import BasicScript.Proofs.Stores.Swap

/-! # Constants

Variables, destructured variables and fields can be declared constant. What
such a cell holds stays for ever: in the same run and in all later ones it keeps
its type, its value and its mark. Names, members and positions are the ways by
which programs aim stores at cells. On each of them a constant refuses what
arrives, and an exchange that it has broken off does not change it either.
-/

namespace BasicScript

/-- A constant in storage. -/
structure State.HasConstant (s : State) (id : CellId) : Prop where
  bound : id.index < s.store.cells.size
  constant : (s.store.cell id).constant = true

/-- What a state may become: a later moment of a run or of the runs that follow, or any moment of
what an interpreter is asked for in that state. -/
inductive State.Becomes (s : State) : State → Prop
  | refl : Becomes s s
  | later {t u : State} : Becomes s t → Later .standard t u → Becomes s u
  | value {t : State} (halt : State → Bool) (fuel : Nat) (hint : Option Ty) (e : Expr) :
      Becomes s t → Becomes s (((Evaluator.interrupted .standard halt fuel).eval hint e).state t)
  | statement {t : State} (halt : State → Bool) (fuel : Nat) (stmt : Stmt) : Becomes s t →
      Becomes s (((Evaluator.interrupted .standard halt fuel).exec stmt).state t)
  | call {t : State} (halt : State → Bool) (fuel : Nat) (name : String) (args : List Value) :
      Becomes s t →
        Becomes s (((Evaluator.interrupted .standard halt fuel).invoke name args).state t)
  | default {t : State} (halt : State → Bool) (fuel : Nat) (type : Ty) : Becomes s t →
      Becomes s (((Evaluator.interrupted .standard halt fuel).default type).state t)
  | evaluate {t : State} (halt : State → Bool) (fuel : Nat) (e : Expr) : Becomes s t →
      Becomes s (((Evaluator.interrupted .standard halt fuel).evaluate e).state t)

/-- The fault with which a constant of a name refuses a value. -/
def Value.refusal (name : String) (v : Value) : Fault :=
  if v.isMissing then .assignedEmpty else .reassignedConstant name

/-- A store that starts in `s` aims at the cell `id`, under a name that faults show. The state `t`
is the one in which it has found the cell, and `arrives v u` says that `v` comes to the cell in
`u`. -/
inductive Evaluator.AimsAt (r : Evaluator) (s : State) : ExprKind → (t : State) → (id : CellId) →
    (shown : String) → (arrives : Value → State → Prop) → Prop
  /-- An assignment to a variable. -/
  | assign {left right : Expr} {name : String} {id : CellId} : left.kind = .name name →
      s.env.cell? name = some id → AimsAt r s (.binary .assign left right) s id name fun v u =>
        r.eval (s.store.cell id).type.hint? right s = .ok v u
  /-- An exchange with the variable on the left. -/
  | exchangeLeft {left right : Expr} {a b : String} {id other : CellId} :
      left.kind = .name a → right.kind = .name b → s.env.cell? a = some id →
        s.env.cell? b = some other → AimsAt r s (.binary .swap left right) s id a fun v u =>
          v = s.store.read other ∧ u = s
  /-- An exchange with the variable on the right, to which the first store of the exchange leads. -/
  | exchangeRight {left right : Expr} {a b : String} {id other : CellId} :
      left.kind = .name a → right.kind = .name b → s.env.cell? a = some other →
        s.env.cell? b = some id → AimsAt r s (.binary .swap left right) s id b fun v u =>
          v = s.store.read other ∧ ∃ w, Run.assign other a (s.store.read id) s = .ok w u
  /-- A store of a character into the text of a variable. -/
  | character {target index value : Expr} {name text : String} {id : CellId} :
      target.kind = .name name → s.env.cell? name = some id →
        s.store.read id = .string text →
          AimsAt r s (.setIndex target index value) s id name fun v u =>
            ∃ s₁ i s₂ place c, r.eval none target s = .ok (.string text) s₁ ∧
              r.eval none index s₁ = .ok i s₂ ∧ i.place? = some place ∧
                r.eval none value s₂ = .ok (.char c) u ∧ place < text.toList.length ∧
                  v = .string (String.ofList (text.toList.set place c))
  /-- A store into a member. -/
  | member {target value : Expr} {decl : DataDecl} {cells : List CellId} {i : Nat}
      {field : Field} {t : State} {id : CellId} : r.eval none target s = .ok (.data decl cells) t →
        decl.FirstAt i field → cells[i]? = some id →
          AimsAt r s (.setMember target field.name value) t id field.name fun v u =>
            r.eval (t.store.cell id).type.hint? value t = .ok v u
  /-- A store at a position. -/
  | position {target index value : Expr} {decl : DataDecl} {cells : List CellId} {i : Value}
      {place : Nat} {field : Field} {s₁ t : State} {id : CellId} :
        r.eval none target s = .ok (.data decl cells) s₁ → r.eval none index s₁ = .ok i t →
          i.place? = some place → cells[place]? = some id → decl.fields[place]? = some field →
            AimsAt r s (.setIndex target index value) t id field.name fun v u =>
              r.eval (t.store.cell id).type.hint? value t = .ok v u

/-- A constant that has come up stays in sight under its name, in the scope of its declaration. -/
def State.DeclaredConstant (s : State) (name : String) : Prop :=
  ∃ id, s.env.currentScope.cell? name = some id ∧ s.HasConstant id

theorem State.Grows.constant {s t : State} {id : CellId} (h : s.Grows t) (hid : s.HasConstant id) :
    t.store.cell id = s.store.cell id := by
  have hkeeps := h.store.cell hid.bound
  have hvalue := hkeeps.fixed hid.constant
  have htype := hkeeps.type
  have hconstant := hkeeps.constant
  generalize t.store.cell id = c at hvalue htype hconstant
  obtain ⟨type, value, constant⟩ := c
  cases hvalue
  cases htype
  cases hconstant
  rfl

theorem State.HasConstant.grows {s t : State} {id : CellId} (hid : s.HasConstant id)
    (h : s.Grows t) : t.HasConstant id where
  bound := Nat.lt_of_lt_of_le hid.bound h.store.cells.size_le
  constant := (congrArg Cell.constant (h.constant hid)).trans hid.constant

theorem State.Becomes.grows {s t : State} (h : s.Becomes t) : s.Grows t := by
  have hself := fun halt fuel => Evaluator.interrupted_precedes_self (c := False)
    Library.standard_framed halt fuel
  induction h with
  | refl => exact .refl s
  | later _ hlater ih => exact ih.trans (hlater.grows fun _ => Library.standard_framed)
  | value halt fuel hint e _ ih => exact ih.trans (((hself halt fuel).eval hint e).frame _).grows
  | statement halt fuel stmt _ ih => exact ih.trans (((hself halt fuel).exec stmt).frame _).grows
  | call halt fuel name args _ ih =>
    exact ih.trans (((hself halt fuel).invoke name args).frame _).grows
  | default halt fuel type _ ih =>
    exact ih.trans (((hself halt fuel).default type).frame _).grows
  | evaluate halt fuel e _ ih => exact ih.trans (((hself halt fuel).evaluate e).frame _).grows

namespace Run

variable {s : State} {id other : CellId} {name a b : String} {v : Value}

/-- A constant takes no value. -/
theorem assign_constant (hid : (s.store.cell id).constant = true) (name : String) (v : Value) :
    Run.assign id name v s = .error (.error (.ofFault (v.refusal name))) s := by
  unfold Run.assign Value.refusal
  by_cases hv : v.isMissing = true
  · rw [if_pos hv, if_pos hv]
    rfl
  · rw [if_neg hv, if_neg hv]
    show (if (s.store.cell id).constant then _ else _ : Run Value) s = _
    rw [if_pos hid]
    rfl

/-- A constant on the left breaks the exchange off at once. -/
theorem exchange_left (hid : (s.store.cell id).constant = true) (a b : String) :
    Run.exchange id other a b s =
      .error (.error (.ofFault ((s.store.read other).refusal a))) s :=
  Run.bind_error (assign_constant hid a (s.store.read other)) _

/-- A constant on the right breaks it off in the middle, if the left one has taken its value. -/
theorem exchange_right (hid : s.HasConstant id) (a b : String) :
    ∃ e u, Run.exchange other id a b s = .error (.error e) u ∧
      ∀ w t, Run.assign other a (s.store.read id) s = .ok w t →
        e.fault = (s.store.read other).refusal b := by
  rcases assign_cases other a (s.store.read id) s with ⟨w, σ, hfree, -, -, hfirst⟩ | ⟨f, hfirst⟩
  · have hgrows : s.Grows { s with store := σ.write other w } :=
      ((Run.Tracks.assign (c := False) (o := False) other a _).frame_ok hfirst).grows
    have hsecond := assign_constant (hid.grows hgrows).constant b (s.store.read other)
    have hrun := exchange_first b hfirst
    rw [hsecond] at hrun
    exact ⟨_, _, hrun, fun _ _ _ => rfl⟩
  · exact ⟨_, s, Run.bind_error hfirst _, fun w t ht => nomatch hfirst.symm.trans ht⟩

/-- What undoes an exchange passes over a constant. -/
theorem putBack_constant (hid : (s.store.cell id).constant = true) (v : Value) :
    Run.putBack id v s = s := by
  unfold Run.putBack Store.put
  rw [if_pos hid]

end Run

/-- A store at a constant fails and leaves the constant as it is; if a value comes to the constant,
it is refused. -/
def State.Refuses (s : State) (id : CellId) (shown : String) (arrives : Value → State → Prop)
    (outcome : EStateM.Result Stop State Value) : Prop :=
  ∃ stop u, outcome = .error stop u ∧ u.store.cell id = s.store.cell id ∧
    ∀ v w, arrives v w → ∃ e, stop = .error e ∧ e.fault = v.refusal shown

/-- What a run in a frame leaves of a constant need not be looked at. -/
theorem State.Refuses.of_grows {s : State} {id : CellId} {shown : String}
    {arrives : Value → State → Prop} {x : Run Value} (hid : s.HasConstant id)
    (hgrows : s.Grows (x.state s))
    (h : ∃ stop u, x s = .error stop u ∧
      ∀ v w, arrives v w → ∃ e, stop = .error e ∧ e.fault = v.refusal shown) :
    s.Refuses id shown arrives (x s) := by
  obtain ⟨stop, u, hrun, hfault⟩ := h
  rw [Run.state_error hrun] at hgrows
  exact ⟨stop, u, hrun, hgrows.constant hid, hfault⟩

theorem State.Refuses.atSpan {s t : State} {id : CellId} {shown : String}
    {arrives : Value → State → Prop} {x : Run Value} (span : Span)
    (h : t.Refuses id shown arrives (x s)) :
    t.Refuses id shown arrives (Run.atSpan span x s) := by
  obtain ⟨stop, u, hrun, hcell, hfault⟩ := h
  refine ⟨_, u, Run.atSpan_error span hrun, hcell, fun v w hv => ?_⟩
  obtain ⟨e, rfl, he⟩ := hfault v w hv
  exact ⟨e.orSpan span, rfl, he⟩

/-- An index with a place is a whole number. -/
theorem Value.number_of_place? {index : Value} {place : Nat} (h : index.place? = some place) :
    ∃ n : Number, index = .number n ∧ n.kind.isIntegral = true ∧ n.toInt = place := by
  obtain ⟨k, hk, rfl⟩ := Option.map_eq_some_iff.mp h
  obtain ⟨hwhole, hnonneg⟩ := Option.filter_eq_some_iff.mp hk
  cases index with
  | number n =>
    have hn : (if n.kind.isIntegral then some n.toInt else Option.none) = some k := hwhole
    split at hn
    · next hint =>
      cases hn
      exact ⟨n, rfl, hint, (Int.toNat_of_nonneg (of_decide_eq_true hnonneg)).symm⟩
    · cases hn
  | _ => cases hwhole

namespace Evaluator

variable {r : Evaluator} {s t : State} {id : CellId} {name : String}

theorem storeField_refuses (hr : r.Precedes none False r) (hid : s.HasConstant id) (name : String)
    (value : Expr) :
    s.Refuses id name (fun v u => r.eval (s.store.cell id).type.hint? value s = .ok v u)
      (r.storeField id name value s) := by
  cases hvalue : r.eval (s.store.cell id).type.hint? value s with
  | error e u =>
    have hgrows := ((hr.eval _ value).frame_error hvalue).grows
    have hrun : r.storeField id name value s = .error e u := Run.bind_error hvalue _
    exact ⟨e, u, hrun, hgrows.constant hid, fun v w hw => nomatch hw⟩
  | ok v u =>
    have hgrows := ((hr.eval _ value).frame_ok hvalue).grows
    have hassign := Run.assign_constant (hid.grows hgrows).constant name v
    have hrun : r.storeField id name value s = _ := (Run.bind_ok hvalue _).trans hassign
    refine ⟨_, u, hrun, hgrows.constant hid, fun v' w hw => ?_⟩
    cases hw
    exact ⟨_, rfl, rfl⟩

theorem assignExpr_refuses (hr : r.Precedes none False r) (hid : s.HasConstant id) {left : Expr}
    (hleft : left.kind = .name name) (hcell : s.env.cell? name = some id) (right : Expr) :
    s.Refuses id name (fun v u => r.eval (s.store.cell id).type.hint? right s = .ok v u)
      (r.assignExpr left right s) := by
  rw [assignExpr_name hleft hcell]
  exact storeField_refuses hr hid name right

theorem swapExpr_exchange {left right : Expr} {a b : String} {cellA cellB : CellId}
    (hleft : left.kind = .name a) (hright : right.kind = .name b)
    (hcellA : s.env.cell? a = some cellA) (hcellB : s.env.cell? b = some cellB) :
    swapExpr left right s = Run.exchange cellA cellB a b s := by
  unfold swapExpr
  rw [hleft, hright]
  exact (Run.bind_ok (Run.cellOf_ok hcellA) _).trans (Run.bind_ok (Run.cellOf_ok hcellB) _)

/-- A character for a text that a constant holds is refused, once it is known to have a place. -/
theorem setCharacter_refused {s₀ : State} (hr : r.Precedes none False r) (hs₀ : s₀.env.Nested)
    (hframe : Frame False s₀ s) (hid : s₀.HasConstant id) (hcell : s₀.env.cell? name = some id)
    {target : Expr} (htarget : target.kind = .name name) (text : String) (index : Value)
    (value : Expr) :
    ∃ stop u, r.setCharacter target text index value s = .error stop u ∧
      ∀ place c w, index.place? = some place → r.eval none value s = .ok (.char c) w →
        place < text.toList.length → ∃ e, stop = .error e ∧ e.fault = .reassignedConstant name := by
  obtain ⟨kind, span⟩ := target
  cases htarget
  rcases Run.position_cases index s with ⟨n, hn, hposition⟩ | ⟨hn, e, hposition⟩
  case inr =>
    exact ⟨e, s, Run.bind_error hposition _, fun place c w hplace =>
      nomatch hn.symm.trans hplace⟩
  cases hvalue : r.eval none value s with
  | error e u =>
    refine ⟨e, u, (Run.bind_ok hposition _).trans (Run.bind_error hvalue _), ?_⟩
    exact fun place c w _ hc => nomatch hc
  | ok v u =>
    have hafter : r.setCharacter (.mk (.name name) span) text index value s = _ :=
      (Run.bind_ok hposition _).trans (Run.bind_ok hvalue _)
    cases v with
    | char c =>
      by_cases hplace : n < text.toList.length
      case neg =>
        obtain ⟨e, he⟩ : ∃ e, (Run.atIndex index none : Run Value) u = .error e u :=
          Run.text_fails _ index u
        refine ⟨e, u, hafter.trans ((congrFun (if_neg hplace) u).trans he), ?_⟩
        intro place c' w hplace' _ hlt
        cases hn.symm.trans hplace'
        exact absurd hlt hplace
      have hall : Frame False s₀ u := hframe.trans ((hr.eval none value).frame_ok hvalue)
      have hassign := Run.assign_constant (hid.grows hall.grows).constant name
        (.string (String.ofList (text.toList.set n c)))
      have hfound := Run.cellOf_ok ((hall.cell? hs₀ name).trans hcell)
      refine ⟨_, u, hafter.trans ((congrFun (if_pos hplace) u).trans
        ((Run.bind_ok hfound _).trans (Run.bind_error hassign _))), ?_⟩
      exact fun _ _ _ _ _ _ => ⟨_, rfl, rfl⟩
    | _ => exact ⟨_, u, hafter.trans rfl, fun place c w _ hc => nomatch hc⟩

theorem setIndexExpr_refuses {fuel : Nat} {settings : Settings} (hs : s.Amid settings)
    (hid : s.HasConstant id) {target : Expr} (htarget : target.kind = .name name)
    (hcell : s.env.cell? name = some id) {text : String} (htext : s.store.read id = .string text)
    (index value : Expr) :
    s.Refuses id name (fun v u => ∃ s₁ i s₂ place c,
        (ofFuel .standard fuel).eval none target s = .ok (.string text) s₁ ∧
          (ofFuel .standard fuel).eval none index s₁ = .ok i s₂ ∧ i.place? = some place ∧
            (ofFuel .standard fuel).eval none value s₂ = .ok (.char c) u ∧
              place < text.toList.length ∧ v = .string (String.ofList (text.toList.set place c)))
      ((ofFuel .standard fuel).setIndexExpr target index value s) := by
  have hr := ofFuel_precedes_self (c := False) Library.standard_framed fuel
  refine .of_grows hid ((hr.setIndexExpr target index value).frame s).grows ?_
  cases ht : (ofFuel .standard fuel).eval none target s with
  | error e u =>
    refine ⟨e, u, Run.bind_error ht _, ?_⟩
    rintro v w ⟨s₁, i, s₂, place, c, ht', -⟩
    exact nomatch ht'
  | ok v s₁ =>
    obtain ⟨id', hid', rfl⟩ := eval_name htarget ht
    cases hcell.symm.trans hid'
    rw [htext] at ht
    have hframe : Frame False s s₁ := (hr.eval none target).frame_ok ht
    have hafter : (ofFuel .standard fuel).setIndexExpr target index value s = _ :=
      Run.bind_ok ht _
    cases hi : (ofFuel .standard fuel).eval none index s₁ with
    | error e u =>
      refine ⟨e, u, hafter.trans (Run.bind_error hi _), ?_⟩
      rintro v w ⟨s₁', i, s₂, place, c, ht', hi', -⟩
      obtain ⟨-, rfl⟩ := EStateM.Result.ok.inj ht'
      exact nomatch hi.symm.trans hi'
    | ok i s₂ =>
      have hframe' : Frame False s s₂ := hframe.trans ((hr.eval none index).frame_ok hi)
      obtain ⟨stop, u, hrun, hfault⟩ :=
        setCharacter_refused hr hs.nested hframe' hid hcell htarget text i value
      refine ⟨stop, u, hafter.trans ((Run.bind_ok hi _).trans hrun), ?_⟩
      rintro v w ⟨s₁', i', s₂', place, c, ht', hi', hplace, hvalue, hlt, rfl⟩
      obtain ⟨-, rfl⟩ := EStateM.Result.ok.inj ht'
      cases hi.symm.trans hi'
      exact hfault place c w hplace hvalue hlt

/-- The cells of a composite are those of its fields, with their marks. -/
theorem isField_of_eval {fuel : Nat} {settings : Settings} (hs : s.Amid settings) {hint : Option Ty}
    {target : Expr} {decl : DataDecl} {cells : List CellId}
    (ht : (ofFuel .standard fuel).eval hint target s = .ok (.data decl cells) t) :
    List.Forall₂ t.store.IsField decl.fields cells := by
  obtain ⟨-, -, hvalue⟩ := (standard_sound fuel).eval hint target s hs.typed
  exact (hvalue _ _ ht).2

theorem AimsAt.refuses {fuel : Nat} {settings : Settings} {kind : ExprKind} {shown : String}
    {arrives : Value → State → Prop}
    (h : (ofFuel .standard fuel).AimsAt s kind t id shown arrives) (hs : s.Amid settings)
    (hid : (t.store.cell id).constant = true) (hint : Option Ty) (span : Span) :
    t.Refuses id shown arrives ((ofFuel .standard fuel).exprKind hint span kind s) := by
  have hr := ofFuel_precedes_self (c := False) Library.standard_framed fuel
  have hl : (ofFuel .standard fuel).library.Framed False := by
    rw [ofFuel_library]
    exact Library.standard_framed
  have hfield : ∀ {target : Expr} {decl : DataDecl} {cells : List CellId} {i : Nat} {s₁ : State},
      (ofFuel .standard fuel).eval none target s = .ok (.data decl cells) s₁ →
        cells[i]? = some id → id.index < s₁.store.cells.size := by
    intro target decl cells i s₁ ht hcell
    have hfields := isField_of_eval hs ht
    obtain ⟨hi, rfl⟩ := List.getElem?_eq_some_iff.mp hcell
    exact ((List.forall₂_iff_get.mp hfields).2 i (hfields.length_eq ▸ hi) hi).bound
  cases h with
  | assign hleft hcell =>
    exact assignExpr_refuses hr ⟨hs.typed.visible hcell, hid⟩ hleft hcell _
  | exchangeLeft hleft hright hcell hother =>
    refine .of_grows ⟨hs.typed.visible hcell, hid⟩
      ((hr.exprKind hl hint span _).frame s).grows ?_
    refine ⟨_, s, (swapExpr_exchange hleft hright hcell hother).trans
      (Run.exchange_left hid _ _), ?_⟩
    rintro v w ⟨rfl, -⟩
    exact ⟨_, rfl, rfl⟩
  | exchangeRight hleft hright hother hcell =>
    have hconstant : s.HasConstant id := ⟨hs.typed.visible hcell, hid⟩
    refine .of_grows hconstant
      ((hr.exprKind hl hint span _).frame s).grows ?_
    obtain ⟨e, u, hrun, hfault⟩ := Run.exchange_right hconstant _ _
    refine ⟨.error e, u, (swapExpr_exchange hleft hright hother hcell).trans hrun, ?_⟩
    rintro v w ⟨rfl, v', hfirst⟩
    exact ⟨e, rfl, hfault v' w hfirst⟩
  | character htarget hcell htext =>
    exact setIndexExpr_refuses hs ⟨hs.typed.visible hcell, hid⟩ htarget hcell htext _ _
  | member ht hfirst hcell =>
    show t.Refuses _ _ _ ((ofFuel .standard fuel).setMemberExpr _ _ _ s)
    rw [setMemberExpr_first ht hfirst hcell]
    exact storeField_refuses hr ⟨hfield ht hcell, hid⟩ _ _
  | position ht hi hplace hcell hfirst =>
    obtain ⟨n, rfl, hwhole, hn⟩ := Value.number_of_place? hplace
    have hbound := Nat.lt_of_lt_of_le (hfield ht hcell)
      ((hr.eval none _).frame_ok hi).grows.store.cells.size_le
    have hrun : ∀ value, (ofFuel .standard fuel).setIndexExpr _ _ value s = _ := fun value =>
      (Run.bind_ok ht _).trans ((Run.bind_ok hi _).trans
        (setFieldAt_at hwhole hn hfirst hcell value t))
    show t.Refuses _ _ _ ((ofFuel .standard fuel).setIndexExpr _ _ _ s)
    rw [hrun]
    exact storeField_refuses hr ⟨hbound, hid⟩ _ _

end Evaluator

/-- What the scope of a declaration gains later does not hide it. -/
theorem State.DeclaredConstant.kept {names : List (Entity × String)} {s t : State} {name : String}
    (h : s.DeclaredConstant name) (hgrows : s.Grows t) (hdeclares : s.DeclaresOnly names t) :
    t.DeclaredConstant name := by
  obtain ⟨id, hcell, hid⟩ := h
  refine ⟨id, ?_, hid.grows hgrows⟩
  unfold Environment.currentScope Environment.scope at hcell ⊢
  rw [hdeclares.currentId]
  cases hsc : s.env.scopes[s.env.currentId.index]? with
  | none =>
    rw [hsc] at hcell
    exact nomatch hcell
  | some sc =>
    rw [hsc, Option.getD_some] at hcell
    obtain ⟨sc', hsc', hgains⟩ := hdeclares.here sc hsc
    obtain ⟨new, hnew, hfresh⟩ := hgains.cells
    rw [hsc', Option.getD_some, Scope.cell?, hnew, List.lookup_append]
    have hnone : new.lookup name = none := by
      refine List.lookup_eq_none_iff.mpr fun p hp => ?_
      obtain ⟨b, hb, hkey⟩ : ∃ b ∈ sc.cells, b.1 = name := by
        obtain ⟨l, k, hsplit, -⟩ := List.lookup_eq_some_iff.mp hcell
        exact ⟨(name, id), by rw [hsplit]; simp, rfl⟩
      have hne := (hfresh p hp).2 b hb
      rw [hkey] at hne
      exact bne_iff_ne.mpr hne
    rw [hnone]
    exact hcell

/-- A constant that is declared is found in the current scope. -/
theorem Run.declareVariable_constant {s u : State} {name : String} {type : Ty} {v : Value}
    {id : CellId} (hs : s.env.currentId.index < s.env.scopes.size)
    (h : Run.declareVariable name ⟨type, v, true⟩ s = .ok id u) : u.DeclaredConstant name := by
  rcases Run.declareVariable_cases name ⟨type, v, true⟩ s with ⟨-, hrun⟩ | ⟨f, hrun⟩
  · cases hrun.symm.trans h
    let σ := s.store.newCell ⟨type, v, true⟩
    have hbound : σ.1.index < σ.2.cells.size := by
      show s.store.cells.size < (s.store.cells.push _).size
      rw [Array.size_push]
      exact Nat.lt_succ_self _
    have hcell : σ.2.cell σ.1 = ⟨type, v, true⟩ := by
      show (s.store.cells.push _)[s.store.cells.size]?.getD _ = _
      rw [Array.getElem?_push_size, Option.getD_some]
    refine ⟨σ.1, ?_, hbound, congrArg Cell.constant hcell⟩
    show ((s.env.addVariable name σ.1).scope s.env.currentId).cell? name = some σ.1
    unfold Environment.addVariable
    rw [Environment.scope_modifyCurrent hs]
    exact List.lookup_cons_self
  · exact nomatch hrun.symm.trans h

namespace Evaluator

variable {r : Evaluator} {s u : State} {name : String}

theorem bind_constant {type : Ty} {v : Value} (hs : s.env.currentId.index < s.env.scopes.size)
    (h : bind name type v true s = .ok () u) : u.DeclaredConstant name := by
  obtain ⟨t, s₁, htype, h⟩ := Run.exists_of_bind_ok h
  obtain ⟨w, s₂, hconform, h⟩ := Run.exists_of_bind_ok h
  obtain ⟨id, s₃, hdeclare, h⟩ := Run.exists_of_bind_ok h
  cases h
  have hframe : Frame False s s₂ :=
    ((Precedes.bindingType (c := False) v type).frame_ok htype).trans
      ((Run.Tracks.conform (c := False) t v).frame_ok hconform)
  exact Run.declareVariable_constant (hframe.currentId_lt hs) hdeclare

/-- Each name of a constant destructuring is declared constant. -/
theorem bindEach_constant (hr : r.Precedes none False r) {names : List (String × TypeExpr)}
    {vs : List Value} (hs : s.env.currentId.index < s.env.scopes.size)
    (hlength : names.length = vs.length) (h : r.bindEach true names vs s = .ok () u) :
    ∀ n ∈ names, u.DeclaredConstant n.1 := by
  induction names generalizing vs s with
  | nil => exact fun n hn => nomatch hn
  | cons n names ih =>
    cases vs with
    | nil => cases hlength
    | cons v vs =>
      obtain ⟨t, s₁, htype, h⟩ := Run.exists_of_bind_ok h
      obtain ⟨_, s₂, hbind, h⟩ := Run.exists_of_bind_ok h
      have hopened : Frame True s s₁ := (hr.resolveType n.2).frame_ok htype
      have hbound : Frame True s₁ s₂ := (Precedes.bind (c := False) n.1 t v true).frame_ok hbind
      have hrest : Frame True s₂ u := (hr.bindEach true names vs).frame_ok h
      have hdeclares := hr.bindEach_declares true names
        (fun n hn => List.mem_map_of_mem (f := fun n => (Entity.variable, n.1)) hn) vs s₂
      rw [Run.state_ok h] at hdeclares
      refine List.forall_mem_cons.mpr ⟨?_, ih ((hopened.trans hbound).currentId_lt hs)
        (Nat.succ.inj hlength) h⟩
      exact (bind_constant (hopened.currentId_lt hs) hbind).kept hrest.grows hdeclares

theorem declareVariable_constant (hr : r.Precedes none False r)
    (hs : s.env.currentId.index < s.env.scopes.size) {written : TypeExpr} {init : Expr}
    (h : r.declareVariable name written init true s = .ok () u) : u.DeclaredConstant name := by
  obtain ⟨t, s₁, htype, h⟩ := Run.exists_of_bind_ok h
  obtain ⟨v, s₂, hv, h⟩ := Run.exists_of_bind_ok h
  have hframe : Frame False s s₂ :=
    ((hr.resolveType written).frame_ok htype).trans ((hr.eval t.hint? init).frame_ok hv)
  by_cases hmissing : v.isMissing = true
  · rw [if_pos hmissing] at h
    by_cases hinferred : t = .inferred
    · rw [if_pos hinferred] at h
      exact nomatch (Run.atSpan_error init.span rfl).symm.trans h
    · rw [if_neg hinferred] at h
      obtain ⟨w, s₃, hw, h⟩ := Run.exists_of_bind_ok h
      have hdefault : Frame False s s₃ := hframe.trans ((hr.default t).frame_ok hw)
      exact bind_constant (hdefault.currentId_lt hs) h
  · rw [if_neg hmissing] at h
    exact bind_constant (hframe.currentId_lt hs) h

theorem bindAll_constant (hr : r.Precedes none False r) {names : List (String × TypeExpr)}
    {vs : List Value} (hs : s.env.currentId.index < s.env.scopes.size)
    (h : r.bindAll names vs true s = .ok () u) : ∀ n ∈ names, u.DeclaredConstant n.1 := by
  unfold bindAll at h
  by_cases hlength : names.length = vs.length
  · rw [if_neg (not_not_intro hlength)] at h
    exact bindEach_constant hr hs hlength h
  · rw [if_pos hlength] at h
    exact nomatch h

/-- Constants never change. A constant keeps its type, its value and its mark, whatever becomes of
the state: in the rest of the run, in later runs, and in whatever else an interpreter is asked for.
Assignments, exchanges on either side, stores of characters, into members and at positions that are
aimed at it fail, and what undoes an exchange passes over it. Constants are what declarations,
destructuring and fields that are marked so bring into being. -/
theorem constants_kept {settings : Settings} (h : s.Amid settings) :
    (∀ id, s.HasConstant id → ∀ t, s.Becomes t → t.store.cell id = s.store.cell id) ∧
    (∀ (fuel : Nat) (hint : Option Ty) (e : Expr) (t : State) (id : CellId) (shown : String)
      (arrives : Value → State → Prop),
        (ofFuel .standard fuel).AimsAt s e.kind t id shown arrives →
          (t.store.cell id).constant = true →
            t.Refuses id shown arrives ((ofFuel .standard fuel).expr hint e s)) ∧
    (∀ id, s.HasConstant id → ∀ v, Run.putBack id v s = s) ∧
    (∀ fuel name type init flow u,
      (ofFuel .standard fuel).stmtKind (.declare name type init true) s = .ok flow u →
        u.DeclaredConstant name) ∧
    (∀ fuel names init flow u,
      (ofFuel .standard fuel).stmtKind (.declareEach names init true) s = .ok flow u →
        ∀ n ∈ names, u.DeclaredConstant n.1) ∧
    ∀ fuel hint e decl cells u,
      (ofFuel .standard fuel).eval hint e s = .ok (.data decl cells) u →
        List.Forall₂ (fun field id => field.constant = true → u.HasConstant id) decl.fields
          cells := by
  have hcurrent := h.nested.currentId_lt
  have hr := fun fuel => ofFuel_precedes_self (c := False) Library.standard_framed fuel
  refine ⟨fun id hid t ht => ht.grows.constant hid, ?_, fun id hid => Run.putBack_constant
    hid.constant, ?_, ?_, ?_⟩
  · intro fuel hint e t id shown arrives haims hid
    exact (haims.refuses h hid hint e.span).atSpan e.span
  · intro fuel name type init flow u hrun
    obtain ⟨_, u', hdeclare, hdone⟩ := Run.exists_of_bind_ok hrun
    cases hdone
    exact declareVariable_constant (hr fuel) hcurrent hdeclare
  · intro fuel names init flow u hrun
    obtain ⟨v, s₁, hv, hrun⟩ := Run.exists_of_bind_ok hrun
    obtain ⟨vs, s₂, hvs, hrun⟩ := Run.exists_of_bind_ok hrun
    obtain ⟨_, u', hbind, hdone⟩ := Run.exists_of_bind_ok hrun
    cases hdone
    have hframe : Frame False s s₂ := (((hr fuel).eval none init).frame_ok hv).trans
      ((Run.Tracks.elementsOf (c := False) v).frame_ok hvs)
    exact bindAll_constant (hr fuel) (hframe.currentId_lt hcurrent) hbind
  · intro fuel hint e decl cells u hrun
    exact (isField_of_eval h hrun).imp fun field id hfield hconstant =>
      ⟨hfield.bound, hfield.constant.trans hconstant⟩

/-- The program `const k as int = 1; var x as int = 2; data P { const a int };
var p as P = P { 3 }`. -/
def declaringConstants : List Stmt :=
  [.generated (.declare "k" (.prim .int) (.generated (.literal (.int 1))) true),
    .generated (.declare "x" (.prim .int) (.generated (.literal (.int 2))) false),
    .generated (.data "P" [⟨"a", .prim .int, true, none⟩]),
    .generated (.declare "p" (.named "P") (.generated (.instantiate (some (.named "P"))
      [.generated (.literal (.int 3))])) false)]

/-- The stores `k = 5`, `x <-> k`, `p.a = 5` and `p[0] = 5` are refused, and no later run changes
`k`. -/
theorem constants_kept_declaringConstants :
    let s := ((interrupted .standard (fun _ => false) 4).run declaringConstants).state
      (.initial ⟨false, none, true⟩)
    let name := fun name => Expr.generated (.name name)
    let int := fun n => Expr.generated (.literal (.int n))
    let refused := fun (kind : ExprKind) (shown : String) => ∃ e u,
      (ofFuel .standard 3).expr none (.generated kind) s = .error (.error e) u ∧
        e.fault = .reassignedConstant shown
    Reaches .standard (.initial ⟨false, none, true⟩) s ∧
    (∀ program halt fuel, (((interrupted .standard halt fuel).run program).state s).store.cell ⟨0⟩ =
      s.store.cell ⟨0⟩) ∧
    refused (.binary .assign (name "k") (int 5)) "k" ∧
    refused (.binary .swap (name "x") (name "k")) "k" ∧
    refused (.setMember (name "p") "a" (int 5)) "a" ∧
    refused (.setIndex (name "p") (int 0) (int 5)) "a" := by
  intro s name int refused
  have h : Reaches .standard (.initial ⟨false, none, true⟩) s :=
    .run declaringConstants (fun _ => false) 4 .refl
  have hk : s.env.cell? "k" = some ⟨0⟩ := by decide +kernel
  have hx : s.env.cell? "x" = some ⟨1⟩ := by decide +kernel
  have hp : s.env.cell? "p" = some ⟨3⟩ := by decide +kernel
  have hconstants : ∀ id ∈ [(⟨0⟩ : CellId), ⟨2⟩], (s.store.cell id).constant = true := by
    decide +kernel
  have hvalue : (s.store.read ⟨1⟩).isMissing = false := by decide +kernel
  have htakes : (Run.assign ⟨1⟩ "x" (s.store.read ⟨0⟩)).succeeds s = true := by decide +kernel
  have hnames : (s.store.read ⟨3⟩).fieldNames = ["a"] := by decide +kernel
  have hcells : (s.store.read ⟨3⟩).fieldCells = [⟨2⟩] := by decide +kernel
  clear_value s
  obtain ⟨hkept, hrefuses, -⟩ := constants_kept h.amid
  have hrefused : ∀ {kind : ExprKind} {t u : State} {id : CellId} {shown : String} {v : Value}
      {arrives : Value → State → Prop},
      (ofFuel .standard 3).AimsAt s kind t id shown arrives → (t.store.cell id).constant = true →
        arrives v u → v.isMissing = false → refused kind shown := by
    intro kind t u id shown v arrives haims hid harrives hpresent
    obtain ⟨stop, u', hrun, -, hfault⟩ :=
      hrefuses 3 none (.generated kind) t id shown arrives haims hid
    obtain ⟨e, rfl, he⟩ := hfault v u harrives
    exact ⟨e, u', hrun, he.trans (if_neg (by rw [hpresent]; exact Bool.false_ne_true))⟩
  obtain ⟨w, t, hfirst⟩ := Run.exists_of_succeeds htakes
  obtain ⟨decl, hdata⟩ : ∃ decl, s.store.read ⟨3⟩ = .data decl [⟨2⟩] := by
    cases hv : s.store.read ⟨3⟩ with
    | data decl cells =>
      rw [hv] at hcells
      cases hcells
      exact ⟨decl, rfl⟩
    | _ => cases (congrArg Value.fieldCells hv).symm.trans hcells
  rw [hdata] at hnames
  have hfields : decl.fields.map Field.name = ["a"] := hnames
  obtain ⟨field, hfield, hname⟩ : ∃ field, decl.FirstAt 0 field ∧ field.name = "a" :=
    DataDecl.firstAt_of_names (congrArg (·[0]?) hfields) (by rw [hfields]; decide)
  have htarget : (ofFuel .standard 3).eval none (name "p") s = .ok (.data decl [⟨2⟩]) s :=
    hdata ▸ Run.atSpan_ok _ (Run.bind_ok (Run.cellOf_ok hp) _)
  have hbound : (0 : Nat) < s.store.cells.size := h.typed.visible hk
  refine ⟨h, fun program halt fuel => hkept ⟨0⟩ ⟨hbound, hconstants _ (by simp)⟩ _
    (.later .refl (.run s program halt fuel)), ?_, ?_, ?_, ?_⟩
  · exact hrefused (.assign rfl hk) (hconstants _ (by simp)) (v := .int 5) rfl rfl
  · exact hrefused (.exchangeRight rfl rfl hx hk) (hconstants _ (by simp)) ⟨rfl, w, hfirst⟩ hvalue
  · exact hname ▸ hrefused (.member htarget hfield rfl) (hconstants _ (by simp)) (v := .int 5)
      rfl rfl
  · exact hname ▸ hrefused (.position htarget rfl rfl rfl hfield.here) (hconstants _ (by simp))
      (v := .int 5) rfl rfl

end Evaluator

end BasicScript
