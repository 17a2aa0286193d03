import BasicScript.Proofs.Names.Destructuring

/-! # Variables without a type

A variable that is declared without a type takes the type that its value
shows, and its value is taken as it is. So the variable shares all arrays with
the initializer, and the value can be assigned to it again at any later time.
-/

namespace BasicScript

/-- There is one more variable, in the current scope and with a cell of its own; all other cells are
as they were, and no array has been made or changed. -/
structure State.Gains (s t : State) (name : String) (id : CellId) (c : Cell) : Prop where
  declared : t.env.currentScope.cell? name = some id
  fresh : id.index = s.store.cells.size
  bound : id.index < t.store.cells.size
  cell : t.store.cell id = c
  cells : ∀ other : CellId, other.index < s.store.cells.size →
    t.store.cell other = s.store.cell other
  arrays : t.store.arrays = s.store.arrays

/-- The variable of a cell can be assigned a value that it then holds as it is. -/
structure State.Retakes (s : State) (name : String) (id : CellId) (type : Ty) (v : Value) :
    Prop where
  declared : (s.store.cell id).type = type
  conforms : type.conform s.store v = .ok (v, s.store)
  assigned : (s.store.cell id).constant = false → s.env.cell? name = some id →
    ∀ (fuel : Nat) (left right : Expr) (t : State), left.kind = .name name →
      (Evaluator.ofFuel .standard fuel).eval type.hint? right s = .ok v t →
        (Evaluator.ofFuel .standard fuel).assignExpr left right s =
          .ok v { t with store := t.store.write id v }

/-- The type that a value shows takes the value as it is. -/
theorem Store.WellTagged.infers {σ : Store} {v : Value} (h : σ.WellTagged v)
    (hv : v.isMissing = false) :
    ∃ type, σ.typeOf? v = some type ∧ type.conform σ v = .ok (v, σ) := by
  obtain ⟨type, htype⟩ := Store.typeOf?_some (σ := σ) hv
  exact ⟨type, htype, h.conform htype⟩

section Declared

variable {s t u : State} {v : Value} {type : Ty} {name : String} {id : CellId} {c : Cell}

theorem Run.declareVariable_gains (hcurrent : s.env.currentId.index < s.env.scopes.size)
    (h : Run.declareVariable name c s = .ok id t) : s.Gains t name id c := by
  obtain ⟨-, htable, hbound, hcell, hcells⟩ := Run.declareVariable_ok hcurrent h
  have hnew : id.index = s.store.cells.size ∧ t.store.arrays = s.store.arrays := by
    rcases Run.declareVariable_cases name c s with ⟨-, hrun⟩ | ⟨f, hrun⟩
    · cases hrun.symm.trans h
      exact ⟨rfl, rfl⟩
    · cases hrun.symm.trans h
  refine ⟨?_, hnew.1, hbound, hcell, hcells, hnew.2⟩
  rw [htable, Scope.cell?, List.lookup_cons_self]

/-- An array keeps the element type that it shows, so its type still takes it later. -/
theorem State.Holds.conforms_later (hv : s.Holds v) (htype : s.store.typeOf? v = some type)
    (hgrows : s.Grows t) (ht : t.Typed) : type.conform t.store v = .ok (v, t.store) :=
  (ht.wellTagged v).conform ((Store.typeOf?_grows hv hgrows.store).trans htype)

/-- At any later time the variable takes the value again. -/
theorem State.Gains.retakes (h : s.Gains t name id c) (hv : s.Holds c.value)
    (hpresent : c.value.isMissing = false) (htype : s.store.typeOf? c.value = some c.type)
    (hst : s.Grows t) (htu : t.Grows u) (hu : u.Typed) : u.Retakes name id c.type c.value := by
  have hkeeps : ∀ {w : State}, t.Grows w → c.Keeps (w.store.cell id) := by
    intro w hw
    have hcell := hw.store.cell h.bound
    rwa [h.cell] at hcell
  refine ⟨(hkeeps htu).type, hv.conforms_later htype (hst.trans htu) hu, ?_⟩
  intro hconstant hcell fuel left right w hleft heval
  obtain ⟨hw, huw, -⟩ := (Evaluator.standard_sound fuel).eval c.type.hint? right u hu
  rw [Run.state_ok heval] at hw huw
  have hconforms := hv.conforms_later htype (hst.trans (htu.trans huw)) hw
  have hkept := hkeeps (htu.trans huw)
  have htakes : (w.store.cell id).Takes w.store c.value := by
    refine ⟨?_, hpresent, _, _, hkept.type ▸ hconforms⟩
    rw [hkept.constant, ← (hkeeps htu).constant, hconstant]
  obtain ⟨v, σ, hconform, hassign⟩ := Run.assign_taken name htakes
  rw [hkept.type, hconforms] at hconform
  cases hconform
  rw [Evaluator.assignExpr_name hleft hcell]
  rw [← (hkeeps htu).type] at heval
  exact (Run.bind_ok heval _).trans hassign

end Declared

namespace Evaluator

variable {r : Evaluator} {s t : State} {v : Value} {type : Ty} {name : String} {init : Expr}
  {constant : Bool}

/-- A value that is there is bound as it is, under a name that is free. -/
theorem bind_inferred (htype : s.store.typeOf? v = some type)
    (hconform : type.conform s.store v = .ok (v, s.store)) (name : String) (constant : Bool) :
    bind name .inferred v constant s =
      if s.env.takesVariable name then .ok () (s.withVariable name ⟨type, v, constant⟩)
      else .error (.error (.ofFault (.alreadyDeclared .variable name))) s := by
  have hfit : Run.conform type v s = .ok v s := by
    simp only [Run.conform, Run.fit, hconform]
  refine (Run.bind_ok (bindingType_some (t := .inferred) htype) _).trans
    ((Run.bind_ok hfit _).trans ?_)
  by_cases htakes : s.env.takesVariable name = true
  · rw [if_pos htakes]
    exact Run.bind_ok (if_pos htakes) _
  · rw [if_neg htakes]
    exact Run.bind_error (if_neg htakes) _

/-- A declaration without a type goes on with the value of its initializer, if there is one. -/
theorem declareVariable_inferred (hs : s.Typed) (fuel : Nat) (name : String) (init : Expr)
    (constant : Bool) :
    let r := ofFuel .standard fuel
    let outcome := r.declareVariable name .inferred init constant s
    (∃ e t, r.eval none init s = .error e t ∧ outcome = .error e t) ∨
    (∃ t, r.eval none init s = .ok .empty t ∧
      outcome = .error (.error ((Report.ofFault .cannotInfer).orSpan init.span)) t) ∨
    ∃ v t type, r.eval none init s = .ok v t ∧ v.isMissing = false ∧ t.Holds v ∧
      t.store.typeOf? v = some type ∧
        outcome = if t.env.takesVariable name then .ok () (t.withVariable name ⟨type, v, constant⟩)
          else .error (.error (.ofFault (.alreadyDeclared .variable name))) t := by
  intro r outcome
  cases hrun : r.eval none init s with
  | error e t => exact .inl ⟨e, t, rfl, Run.bind_error hrun _⟩
  | ok v t =>
    have hbind := Run.bind_ok hrun fun v =>
      if v.isMissing then Run.atSpan init.span (Run.fail .cannotInfer)
      else bind name .inferred v constant
    cases hv : v.isMissing with
    | true =>
      obtain rfl := Value.eq_empty hv
      exact .inr (.inl ⟨t, rfl, hbind⟩)
    | false =>
      obtain ⟨ht, -, hholds⟩ := (standard_sound fuel).eval none init s hs
      rw [Run.state_ok hrun] at ht
      obtain ⟨type, htype, hconform⟩ := (ht.wellTagged v).infers hv
      simp only [hv, Bool.false_eq_true, if_false] at hbind
      exact .inr (.inr ⟨v, t, type, rfl, hv, hholds v t hrun, htype,
        hbind.trans (bind_inferred htype hconform name constant)⟩)

/-- A value that is there, and whose elements belong to what its array is tagged with, shows a type
that takes it as it is; how deep arrays are nested does not matter. So binding a value without a
type fails only where the name is taken. A declaration without a type fails with its initializer,
with the missing value, or where the name is taken. Otherwise there is one more variable, which
holds the very value of the initializer, and no array is made; at any later time the type of the
variable takes the value again as it is. -/
theorem inference_fits {settings : Settings} (hs : s.Amid settings) (fuel : Nat) (name : String)
    (init : Expr) (constant : Bool) :
    let r := ofFuel .standard fuel
    let declare := r.declareVariable name .inferred init constant
    (∀ (σ : Store) (v : Value), v.isMissing = false → σ.WellTagged v →
      ∃ type, σ.typeOf? v = some type ∧ type.conform σ v = .ok (v, σ)) ∧
    (∀ (t : State) (v : Value), v.isMissing = false → t.store.WellTagged v →
      ∃ type, t.store.typeOf? v = some type ∧ bind name .inferred v constant t =
        if t.env.takesVariable name then .ok () (t.withVariable name ⟨type, v, constant⟩)
        else .error (.error (.ofFault (.alreadyDeclared .variable name))) t) ∧
    (∀ e t, declare s = .error e t →
      r.eval none init s = .error e t ∨
      (r.eval none init s = .ok .empty t ∧
        e = .error ((Report.ofFault .cannotInfer).orSpan init.span)) ∨
      ∃ v, r.eval none init s = .ok v t ∧ v.isMissing = false ∧
        t.env.takesVariable name = false ∧
          e = .error (.ofFault (.alreadyDeclared .variable name))) ∧
    ∀ u, declare s = .ok () u → ∃ v t type id, r.eval none init s = .ok v t ∧
      v.isMissing = false ∧ t.store.typeOf? v = some type ∧ t.env.takesVariable name = true ∧
      t.Gains u name id ⟨type, v, constant⟩ ∧
      ∀ w, u.Grows w → w.Amid settings → w.Retakes name id type v := by
  intro r declare
  refine ⟨fun σ v hv htagged => htagged.infers hv, fun t v hv htagged => ?_, ?_⟩
  · obtain ⟨type, htype, hconform⟩ := htagged.infers hv
    exact ⟨type, htype, bind_inferred htype hconform name constant⟩
  rcases declareVariable_inferred hs.typed fuel name init constant with
    ⟨e, t, hrun, hdeclare⟩ | ⟨t, hrun, hdeclare⟩ | ⟨v, t, type, hrun, hv, hholds, htype, hdeclare⟩
  · refine ⟨fun e' t' h => ?_, fun u h => nomatch hdeclare.symm.trans h⟩
    cases hdeclare.symm.trans h
    exact .inl hrun
  · refine ⟨fun e u h => ?_, fun u h => nomatch hdeclare.symm.trans h⟩
    cases hdeclare.symm.trans h
    exact .inr (.inl ⟨hrun, rfl⟩)
  · by_cases htakes : t.env.takesVariable name = true
    · rw [if_pos htakes] at hdeclare
      refine ⟨fun e u h => (nomatch hdeclare.symm.trans h), fun u h => ?_⟩
      cases hdeclare.symm.trans h
      have hframe : Frame False s t := ((ofFuel_precedes_self (c := False) Library.standard_framed
        fuel).eval none init).frame_ok hrun
      have hgains : t.Gains (t.withVariable name ⟨type, v, constant⟩) name _ _ :=
        Run.declareVariable_gains (hframe.currentId_lt hs.nested.currentId_lt) (if_pos htakes)
      exact ⟨v, t, type, _, hrun, hv, htype, htakes, hgains, fun w huw hw =>
        hgains.retakes hholds hv htype (t.withVariable_grows name _) huw hw.typed⟩
    · rw [if_neg htakes] at hdeclare
      refine ⟨fun e u h => ?_, fun u h => nomatch hdeclare.symm.trans h⟩
      cases hdeclare.symm.trans h
      exact .inr (.inr ⟨v, hrun, hv, Bool.eq_false_iff.mpr htakes, rfl⟩)

end Evaluator

/-- The program `var a as int[][] = [[1], [2]]`. -/
def declaringRows : List Stmt :=
  [.generated (.declare "a" (.array (.array (.prim .int) none) none)
    (.generated (.array [.generated (.array [.generated (.literal (.int 1))]),
      .generated (.array [.generated (.literal (.int 2))])])) false)]

/-- After `var b = a` both variables hold the same array of arrays, and it can be assigned to `b`
again. -/
theorem inference_fits_declaringRows :
    let s := ((Evaluator.interrupted .standard (fun _ => false) 6).run declaringRows).state
      (.initial ⟨false, none, true⟩)
    let r := Evaluator.ofFuel .standard 3
    let a := Expr.generated (.name "a")
    let b := Expr.generated (.name "b")
    s.Amid ⟨false, none, true⟩ ∧
      ∃ u id rows, r.declareVariable "b" .inferred a false s = .ok () u ∧
        s.valueOf? "a" = some (.array rows) ∧
        s.Gains u "b" id ⟨.array (.array (.prim .int) none) none, .array rows, false⟩ ∧
        r.assignExpr b a u =
          .ok (.array rows) { u with store := u.store.write id (.array rows) } := by
  intro s r a b
  let declare := r.declareVariable "b" .inferred a false
  have hs : Reaches .standard (.initial ⟨false, none, true⟩) s :=
    .run declaringRows (fun _ => false) 6 .refl
  have hcore : s.core ≠ .pending := by decide +kernel
  have hcell : s.env.cell? "a" = some ⟨0⟩ := by decide +kernel
  have hsize : s.store.cells.size = 1 := by decide +kernel
  have hshows : s.store.typeOf? (s.store.read ⟨0⟩) =
      some (.array (.array (.prim .int) none) none) := by decide +kernel
  have hnames : (declare.state s).env.cell? "a" = some ⟨0⟩ ∧
      (declare.state s).env.cell? "b" = some ⟨1⟩ := by decide +kernel
  obtain ⟨⟨⟩, u, hdeclare⟩ : ∃ done u, declare s = .ok done u :=
    Run.exists_of_succeeds (by decide +kernel)
  rw [Run.state_ok hdeclare] at hnames
  clear_value s
  have heval : ∀ (t : State) (hint : Option Ty), t.env.cell? "a" = some ⟨0⟩ →
      r.eval hint a t = .ok (t.store.read ⟨0⟩) t :=
    fun t hint h => Run.atSpan_ok _ (Run.bind_ok (Run.cellOf_ok h) _)
  have hexec : (Evaluator.ofFuel .standard 4).exec
      (.generated (.declare "b" .inferred a false)) s = .ok .normal u :=
    Run.mapReport_ok.mpr (Run.bind_ok hdeclare _)
  have hu : u.Amid ⟨false, none, true⟩ := (hs.exec hcore hexec).amid
  obtain ⟨-, -, -, hall⟩ := Evaluator.inference_fits hs.amid 3 "b" a false
  obtain ⟨v, t, type, id, hv, -, htype, -, hgains, hlater⟩ := hall u hdeclare
  cases (heval s none hcell).symm.trans hv
  cases hshows.symm.trans htype
  obtain ⟨rows, hrows⟩ : ∃ rows, s.store.read ⟨0⟩ = .array rows := by
    cases hread : s.store.read ⟨0⟩ with
    | array rows => exact ⟨rows, rfl⟩
    | _ =>
      rw [hread] at hshows
      cases hshows
  have hid : id = ⟨1⟩ := congrArg CellId.mk (hgains.fresh.trans hsize)
  have hkept : u.store.read ⟨0⟩ = s.store.read ⟨0⟩ :=
    congrArg Cell.value (hgains.cells ⟨0⟩ (hsize ▸ Nat.zero_lt_one))
  have hretakes := hlater u (.refl u) hu
  have hassigned := hretakes.assigned (by rw [hgains.cell]) (hid ▸ hnames.2) 3 b a u rfl
    (hkept ▸ heval u _ hnames.1)
  rw [hrows] at hgains hassigned
  refine ⟨hs.amid, u, id, rows, hdeclare, ?_, hgains, hassigned⟩
  rw [State.valueOf?, hcell, Option.map_some, hrows]

end BasicScript
