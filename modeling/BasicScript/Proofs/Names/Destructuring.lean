import BasicScript.Proofs.Defaults.Order
import BasicScript.Proofs.Law.Composite
import BasicScript.Proofs.Loops.Each
import BasicScript.Proofs.Stores.Members
import BasicScript.Proofs.Types.Storage

/-! # Destructuring

A destructuring declares its names from left to right, and nothing takes a
declaration back. One that fails at a position has declared the names before
it, and none from there on; one that fails before it has the elements, or for
their number, has declared none.
-/

namespace BasicScript

theorem Run.state_bind_pure {α β : Type} (x : Run α) (f : α → β) (s : State) :
    (x >>= fun a => pure (f a)).state s = x.state s := by
  cases hx : x s with
  | ok a t =>
    rw [state_bind_ok hx, state_ok hx]
    rfl
  | error e t => rw [state_error (bind_error hx _), state_error hx]

/-- What declares nothing leaves the table of the current scope as it is. -/
theorem Frame.sameTable {s t : State} (h : Frame False s t)
    (hcurrent : s.env.currentId.index < s.env.scopes.size) :
    t.env.currentScope = s.env.currentScope := by
  simp only [Environment.currentScope, Environment.scope, h.currentId,
    h.tables _ hcurrent False.elim]

/-- A variable is declared in a place of its own under a name that has been free. -/
theorem Run.declareVariable_ok {name : String} {c : Cell} {id : CellId} {s u : State}
    (hcurrent : s.env.currentId.index < s.env.scopes.size)
    (h : Run.declareVariable name c s = .ok id u) :
    s.env.currentScope.cell? name = none ∧
      u.env.currentScope =
        { s.env.currentScope with cells := (name, id) :: s.env.currentScope.cells } ∧
      id.index < u.store.cells.size ∧ u.store.cell id = c ∧
      ∀ other : CellId, other.index < s.store.cells.size →
        u.store.cell other = s.store.cell other := by
  rcases Run.declareVariable_cases name c s with ⟨htakes, hrun⟩ | ⟨f, hrun⟩
  · cases hrun.symm.trans h
    refine ⟨?_, Environment.scope_modifyCurrent hcurrent _, ?_, ?_, fun other hother => ?_⟩
    · simpa [Environment.takesVariable] using htakes
    · simp [Store.newCell]
    · simp [Store.newCell, Store.cell]
    · simp only [Store.newCell, Store.cell, Array.getElem?_push_lt hother,
        Array.getElem?_eq_getElem hother]
  · cases hrun.symm.trans h

namespace Evaluator

variable {r : Evaluator} {constant : Bool} {s t u : State}

/-- Declares the next name of a destructuring. -/
def bindNext (r : Evaluator) (constant : Bool) (n : String × TypeExpr) (v : Value) : Run Unit := do
  let t ← r.resolveType n.2
  bind n.1 t v constant

theorem bindEach_cons (r : Evaluator) (constant : Bool) (n : String × TypeExpr)
    (names : List (String × TypeExpr)) (v : Value) (vs : List Value) :
    r.bindEach constant (n :: names) (v :: vs) =
      r.bindNext constant n v >>= fun _ => r.bindEach constant names vs := by
  unfold bindNext
  rw [bind_assoc]
  rfl

/-- A type that is written without sizes is looked up, and nothing else happens. -/
theorem resolveType_sizeless (r : Evaluator) : ∀ (written : TypeExpr), written.sizes = [] →
    ∀ s : State, (r.resolveType written).state s = s
  | .inferred, _, _ => rfl
  | .prim _, _, _ => rfl
  | .named name, _, s => by
    show (Run.require (.undeclared .type name) (s.env.namedType? name) : Run Ty).state s = s
    cases s.env.namedType? name <;> rfl
  | .array element none, h, s => by
    have helement := resolveType_sizeless r element (List.append_eq_nil_iff.mp h).1 s
    exact (Run.state_bind_pure _ _ s).trans helement
  | .array element (some size), h, _ => nomatch (List.append_eq_nil_iff.mp h).2
  | .vararg element, h, s => by
    have helement := resolveType_sizeless r element h s
    exact (Run.state_bind_pure _ _ s).trans helement

/-- What a written type makes of an element in a state: the type of the variable, and the element
conformed to it. -/
def Conforms (r : Evaluator) (written : TypeExpr) (v : Value) (s : State) (type : Ty) (w : Value) :
    Prop :=
  ∃ declared t σ, r.resolveType written s = .ok declared t ∧
    declared.forElement? t.store v = some type ∧ type.conform t.store v = .ok (w, σ)

/-- A name that has been free is declared for an element. -/
structure BindsNext (r : Evaluator) (constant : Bool) (n : String × TypeExpr) (v : Value)
    (id : CellId) (s u : State) : Prop where
  run : r.bindNext constant n v s = .ok () u
  free : s.env.currentScope.cell? n.1 = none
  frame : Frame True s u
  table : u.env.currentScope =
    { s.env.currentScope with cells := (n.1, id) :: s.env.currentScope.cells }
  bound : id.index < u.store.cells.size
  element : ∃ type w, r.Conforms n.2 v s type w ∧ u.store.cell id = ⟨type, w, constant⟩
  kept : n.2.sizes = [] → ∀ other : CellId, other.index < s.store.cells.size →
    u.store.cell other = s.store.cell other

/-- The next name is declared for its element, or nothing is declared. -/
theorem bindNext_cases (h : r.Precedes none False r) (constant : Bool)
    (hcurrent : s.env.currentId.index < s.env.scopes.size) (n : String × TypeExpr) (v : Value) :
    (∃ id u, r.BindsNext constant n v id s u) ∨
      ∃ e u, r.bindNext constant n v s = .error e u ∧ Frame False s u := by
  cases hresolve : r.resolveType n.2 s with
  | error e t =>
    exact .inr ⟨e, t, Run.bind_error hresolve _, (h.resolveType n.2).frame_error hresolve⟩
  | ok declared t =>
    have hframe : Frame False s t := (h.resolveType n.2).frame_ok hresolve
    have hrun : r.bindNext constant n v s = bind n.1 declared v constant t :=
      Run.bind_ok hresolve _
    cases htype : declared.forElement? t.store v with
    | none =>
      exact .inr ⟨_, t, hrun.trans (Run.bind_error (bindingType_none htype) _), hframe⟩
    | some type =>
      replace hrun := hrun.trans (Run.bind_ok (bindingType_some htype) _)
      rcases Run.fit_cases type v (fun m got => .ofMismatch type got m) t with
        ⟨w, σ, hconform, hfit⟩ | ⟨m, -, hfit⟩
      · have hadds := Ty.conform_adds hconform
        replace hrun := hrun.trans (Run.bind_ok hfit _)
        have hfitted : Frame False s { t with store := σ } := hframe.trans (.ofStore _ hadds.grows)
        cases hdeclare : Run.declareVariable n.1 ⟨type, w, constant⟩ { t with store := σ } with
        | error e u =>
          refine .inr ⟨e, u, hrun.trans (Run.bind_error hdeclare _), ?_⟩
          rcases Run.declareVariable_cases n.1 ⟨type, w, constant⟩ { t with store := σ } with
            ⟨-, hok⟩ | ⟨f, herror⟩
          · cases hok.symm.trans hdeclare
          · cases herror.symm.trans hdeclare
            exact hfitted
        | ok id u =>
          obtain ⟨hfree, htable, hbound, hcell, hkept⟩ :=
            Run.declareVariable_ok (hfitted.currentId_lt hcurrent) hdeclare
          have hdeclared := (Run.Tracks.declareVariable (ρ := none) (c := False) n.1
            ⟨type, w, constant⟩).frame_ok hdeclare
          rw [hfitted.sameTable hcurrent] at hfree htable
          refine .inl ⟨id, u, hrun.trans (Run.bind_ok hdeclare _), hfree,
            (hfitted.weaken False.elim).trans hdeclared, htable, hbound,
            ⟨type, w, ⟨declared, t, σ, hresolve, htype, hconform⟩, hcell⟩,
            fun hsizes other hother => ?_⟩
          have hsame : t = s := by
            have hstate := resolveType_sizeless r n.2 hsizes s
            rwa [Run.state_ok hresolve] at hstate
          subst hsame
          have hother' : other.index < σ.cells.size :=
            Nat.lt_of_lt_of_le hother hadds.grows.cells.size_le
          exact (hkept other hother').trans (hadds.cell other)
      · exact .inr ⟨_, t, hrun.trans (Run.bind_error hfit _), hframe⟩

/-- The names have been declared for the values, in cells of their own, and nothing else has. -/
structure Destructured (r : Evaluator) (constant : Bool) (names : List (String × TypeExpr))
    (vs : List Value) (ids : List CellId) (s u : State) : Prop where
  count : ids.length = names.length
  frame : Frame True s u
  table : u.env.currentScope = { s.env.currentScope with
    cells := ((names.map Prod.fst).zip ids).reverse ++ s.env.currentScope.cells }
  free : (names.map Prod.fst).Nodup ∧ ∀ n ∈ names, s.env.currentScope.cell? n.1 = none
  /-- A variable holds its element, conformed to its type, which is looked up after the names before
  it have been declared. Only a size in the type of a later name may store another value into it. -/
  element : ∀ (i : Nat) (n : String × TypeExpr) (v : Value) (id : CellId),
    names[i]? = some n → vs[i]? = some v → ids[i]? = some id → ∃ t type w,
      r.bindEach constant (names.take i) (vs.take i) s = .ok () t ∧ Frame True s t ∧
        r.Conforms n.2 v t type w ∧ (u.store.cell id).type = type ∧
        (u.store.cell id).constant = constant ∧
        ((constant = true ∨ ∀ m ∈ names.drop (i + 1), m.2.sizes = []) → u.store.read id = w)
  kept : (∀ m ∈ names, m.2.sizes = []) → ∀ other : CellId, other.index < s.store.cells.size →
    u.store.cell other = s.store.cell other

namespace Destructured

variable {n : String × TypeExpr} {names : List (String × TypeExpr)} {v : Value} {vs : List Value}
  {id : CellId} {ids : List CellId}

theorem nil (r : Evaluator) (constant : Bool) (s : State) :
    r.Destructured constant [] [] [] s s where
  count := rfl
  frame := .refl True s
  table := rfl
  free := ⟨List.nodup_nil, List.forall_mem_nil _⟩
  element _ _ _ _ h := nomatch h
  kept _ _ _ := rfl

theorem cons (h : r.BindsNext constant n v id s t)
    (hrest : r.Destructured constant names vs ids t u) :
    r.Destructured constant (n :: names) (v :: vs) (id :: ids) s u where
  count := congrArg (· + 1) hrest.count
  frame := h.frame.trans hrest.frame
  table := by
    rw [hrest.table, h.table]
    simp
  free := by
    have hothers : ∀ m ∈ names, m.1 ≠ n.1 ∧ s.env.currentScope.cell? m.1 = none := by
      intro m hm
      have hfree := hrest.free.2 m hm
      rw [h.table, Scope.cell?, List.lookup_cons] at hfree
      cases heq : m.1 == n.1 with
      | true =>
        rw [heq] at hfree
        cases hfree
      | false =>
        rw [heq] at hfree
        exact ⟨ne_of_beq_false heq, hfree⟩
    rw [List.map_cons, List.nodup_cons, List.forall_mem_cons]
    refine ⟨⟨fun hmem => ?_, hrest.free.1⟩, h.free, fun m hm => (hothers m hm).2⟩
    obtain ⟨m, hm, hname⟩ := List.mem_map.mp hmem
    exact (hothers m hm).1 hname
  element i m w other hm hw hother := by
    cases i with
    | zero =>
      cases hm
      cases hw
      cases hother
      obtain ⟨type, w, hconforms, hcell⟩ := h.element
      have hkeeps := hrest.frame.grows.store.cell h.bound
      rw [hcell] at hkeeps
      refine ⟨s, type, w, rfl, .refl True s, hconforms, hkeeps.type, hkeeps.constant, ?_⟩
      rintro (hconstant | hsizes)
      · exact hkeeps.fixed hconstant
      · rw [Store.read, hrest.kept hsizes id h.bound, hcell]
    | succ i =>
      obtain ⟨t', type, w', hbefore, hframe, hrest⟩ := hrest.element i m w other hm hw hother
      refine ⟨t', type, w', ?_, h.frame.trans hframe, hrest⟩
      rw [List.take_succ_cons, List.take_succ_cons, bindEach_cons]
      exact (Run.bind_ok h.run _).trans hbefore
  kept hsizes other hother := by
    rw [List.forall_mem_cons] at hsizes
    have hlater := Nat.lt_of_lt_of_le hother h.frame.grows.store.cells.size_le
    rw [hrest.kept hsizes.2 other hlater, h.kept hsizes.1 other hother]

/-- The names are no longer free. -/
theorem taken (h : r.Destructured constant names vs ids s u) {n : String × TypeExpr}
    (hn : n ∈ names) : u.env.takesVariable n.1 = false := by
  obtain ⟨i, hi⟩ := List.mem_iff_getElem?.mp hn
  have hid : i < ids.length := h.count ▸ (List.getElem?_eq_some_iff.mp hi).1
  have hmem : (n.1, ids[i]) ∈ u.env.currentScope.cells := by
    rw [h.table]
    refine List.mem_append_left _ (List.mem_reverse.mpr (List.mem_iff_getElem?.mpr ⟨i, ?_⟩))
    simp [List.getElem?_zip_eq_some, hi, hid]
  rw [Environment.takesVariable, Option.isNone_eq_false_iff, Option.isSome_iff_ne_none]
  intro hnone
  simpa using List.lookup_eq_none_iff.mp hnone _ hmem

end Destructured

/-- All names are declared for the values, or those before one that fails. -/
theorem bindEach_cases (h : r.Precedes none False r) (constant : Bool)
    (hcurrent : s.env.currentId.index < s.env.scopes.size) {names : List (String × TypeExpr)}
    {vs : List Value} (hlength : names.length = vs.length) :
    (∃ ids u, r.bindEach constant names vs s = .ok () u ∧
      r.Destructured constant names vs ids s u) ∨
    ∃ k n v ids u e u', names[k]? = some n ∧ vs[k]? = some v ∧
      r.bindEach constant (names.take k) (vs.take k) s = .ok () u ∧
      r.Destructured constant (names.take k) (vs.take k) ids s u ∧
      r.bindNext constant n v u = .error e u' ∧ Frame False u u' ∧
      r.bindEach constant names vs s = .error e u' := by
  induction names generalizing vs s with
  | nil =>
    cases vs with
    | nil => exact .inl ⟨[], s, rfl, .nil r constant s⟩
    | cons v vs => cases hlength
  | cons n names ih =>
    cases vs with
    | nil => cases hlength
    | cons v vs =>
      rcases bindNext_cases h constant hcurrent n v with
        ⟨id, t, hbinds⟩ | ⟨e, u', hnext, hframe⟩
      · have hrun : ∀ names vs, r.bindEach constant (n :: names) (v :: vs) s =
            r.bindEach constant names vs t := by
          intro names vs
          rw [bindEach_cons]
          exact Run.bind_ok hbinds.run _
        rcases ih (hbinds.frame.currentId_lt hcurrent) (Nat.succ.inj hlength) with
          ⟨ids, u, heach, hdone⟩ | ⟨k, m, w, ids, u, e, u', hm, hw, hbefore, hdone, hfails⟩
        · exact .inl ⟨id :: ids, u, (hrun names vs).trans heach, .cons hbinds hdone⟩
        · refine .inr ⟨k + 1, m, w, id :: ids, u, e, u', hm, hw, ?_, .cons hbinds hdone, hfails.1,
            hfails.2.1, (hrun names vs).trans hfails.2.2⟩
          exact (hrun _ _).trans hbefore
      · refine .inr ⟨0, n, v, [], s, e, u', rfl, rfl, rfl, .nil r constant s, hnext, hframe, ?_⟩
        rw [bindEach_cons]
        exact Run.bind_error hnext _

/-- The elements that a destructuring takes apart. -/
def elements (r : Evaluator) (init : Expr) : Run (List Value) := do
  let v ← r.eval none init
  Run.elementsOf v

theorem stmt_declareEach (r : Evaluator) (names : List (String × TypeExpr)) (init : Expr)
    (constant : Bool) (span : Span) :
    r.stmt (.mk (.declareEach names init constant) span) =
      Run.mapReport (·.traced (StmtKind.declareEach names init constant).describe span)
        (r.elements init >>= fun vs => r.bindAll names vs constant >>= fun _ => pure .normal) := by
  unfold elements
  rw [bind_assoc]
  rfl

/-- In whatever state a run has come to, a destructuring that fails has declared the names before
the position at which it fails, each with its element conformed to its type, and no others. Until it
has as many elements as names, it has declared none. One that succeeds has declared its names. -/
theorem destructuring_binds {settings : Settings} (hs : s.Amid settings) (fuel : Nat)
    (names : List (String × TypeExpr)) (init : Expr) (constant : Bool) (span : Span) :
    let r := ofFuel .standard fuel
    let statement := Stmt.mk (.declareEach names init constant) span
    let noted := Stop.mapReport (·.traced statement.kind.describe span)
    (∀ e u, r.elements init s = .error e u → r.stmt statement s = .error (noted e) u ∧
      u.env.currentScope = s.env.currentScope) ∧
    ∀ vs t, r.elements init s = .ok vs t → t.env.currentScope = s.env.currentScope ∧
      (names.length ≠ vs.length → r.stmt statement s =
        .error (noted (.error (.ofFault (.notPartitioned names.length vs.length)))) t) ∧
      (names.length = vs.length →
        (∃ ids u, r.stmt statement s = .ok .normal u ∧
          r.Destructured constant names vs ids t u) ∨
        ∃ k n v ids u e u', names[k]? = some n ∧ vs[k]? = some v ∧
          r.bindEach constant (names.take k) (vs.take k) t = .ok () u ∧
          r.Destructured constant (names.take k) (vs.take k) ids t u ∧
          r.bindNext constant n v u = .error e u' ∧ r.stmt statement s = .error (noted e) u' ∧
          u'.env.currentScope = u.env.currentScope ∧
          ∀ m ∈ names.take k, u'.env.takesVariable m.1 = false) := by
  intro r statement noted
  have hprecedes : r.Precedes none False r := ofFuel_precedes_self Library.standard_framed fuel
  have hcurrent := hs.nested.currentId_lt
  have helements : Run.Tracks none False False (r.elements init) (r.elements init) :=
    (hprecedes.eval none init).bind fun v => Run.Tracks.elementsOf v
  have hstmt := r.stmt_declareEach names init constant span
  refine ⟨fun e u he => ⟨?_, (helements.frame_error he).sameTable hcurrent⟩, fun vs t ht => ?_⟩
  · rw [hstmt]
    exact Run.mapReport_error (Run.bind_error he _)
  have hframe : Frame False s t := helements.frame_ok ht
  refine ⟨hframe.sameTable hcurrent, fun hlength => ?_, fun hlength => ?_⟩
  · have hall : r.bindAll names vs constant t =
        .error (.error (.ofFault (.notPartitioned names.length vs.length))) t := by
      unfold bindAll
      rw [if_pos hlength]
      rfl
    rw [hstmt]
    exact Run.mapReport_error ((Run.bind_ok ht _).trans (Run.bind_error hall _))
  · have hall : r.bindAll names vs constant = r.bindEach constant names vs := by
      unfold bindAll
      rw [if_neg (not_not_intro hlength)]
    rw [hstmt]
    have hcurrent' := hframe.currentId_lt hcurrent
    rcases bindEach_cases hprecedes constant hcurrent' hlength with
      ⟨ids, u, heach, hdone⟩ |
      ⟨k, n, v, ids, u, e, u', hn, hv, hbefore, hdone, hnext, hstill, heach⟩
    · refine .inl ⟨ids, u, Run.mapReport_ok.mpr ((Run.bind_ok ht _).trans ?_), hdone⟩
      rw [hall]
      exact Run.bind_ok heach _
    · have htable := hstill.sameTable (hdone.frame.currentId_lt hcurrent')
      refine .inr ⟨k, n, v, ids, u, e, u', hn, hv, hbefore, hdone, hnext,
        Run.mapReport_error ((Run.bind_ok ht _).trans ?_), htable, fun m hm => ?_⟩
      · rw [hall]
        exact Run.bind_error heach _
      · rw [Environment.takesVariable, htable]
        exact hdone.taken hm

/-- The array `[1, "x"]`. -/
def oneAndText : Expr :=
  .generated (.array [.generated (.literal (.int 1)), .generated (.literal (.string "x"))])

/-- The statement `var a, b as type = [1, "x"]`. -/
def takingApart (type : Primitive) : Stmt :=
  .generated (.declareEach [("a", .inferred), ("b", .prim type)] oneAndText false)

theorem destructuring_binds_takingApart :
    let s := State.initial ⟨false, none, true⟩
    let r := ofFuel .standard 4
    let names : List (String × TypeExpr) := [("a", .inferred), ("b", .prim .int)]
    s.Amid ⟨false, none, true⟩ ∧ ∃ vs t k n v ids u e u', r.elements oneAndText s = .ok vs t ∧
      names[k]? = some n ∧ vs[k]? = some v ∧
      r.Destructured false (names.take k) (vs.take k) ids t u ∧
      r.bindNext false n v u = .error e u' ∧ (r.stmt (takingApart .int)).state s = u' := by
  intro s r names
  have hs : s.Amid ⟨false, none, true⟩ := Reaches.amid .refl
  have hlength : ((r.elements oneAndText).result? s).map List.length = some 2 := by decide +kernel
  have hrefused : (r.stmt (takingApart .int)).result? s = none := by decide +kernel
  have hstart := (destructuring_binds hs 4 names oneAndText false .nowhere).2
  cases helements : r.elements oneAndText s with
  | error e u =>
    rw [Run.result?, helements] at hlength
    cases hlength
  | ok vs t =>
    rw [Run.result?, helements] at hlength
    rcases (hstart vs t helements).2.2 (Option.some.inj hlength).symm with
      ⟨ids, u, hok, -⟩ | ⟨k, n, v, ids, u, e, u', hn, hv, -, hdone, hnext, hrun, -⟩
    · rw [Run.result?, show r.stmt (takingApart .int) s = .ok .normal u from hok] at hrefused
      cases hrefused
    · exact ⟨hs, vs, t, k, n, v, ids, u, e, u', rfl, hn, hv, hdone, hnext, Run.state_error hrun⟩

/-- A destructuring that fails at its second name leaves the first one declared, and the corrected
one is refused for it. -/
theorem destructuring_leaves :
    let s := State.initial ⟨false, none, true⟩
    let r := ofFuel .standard 4
    let t := (r.stmt (takingApart .int)).state s
    s.env.currentScope.cells = [] ∧
    (match r.stmt (takingApart .int) s with
      | .error (.error ⟨.mismatchedType (.prim .int) (some (.prim .string)), _, _, _⟩) _ => true
      | _ => false) = true ∧
    t.env.currentScope.cells.map Prod.fst = ["a"] ∧
    (match r.stmt (takingApart .string) t with
      | .error (.error ⟨.alreadyDeclared .variable "a", _, _, _⟩) _ => true
      | _ => false) = true ∧
    ((r.stmt (takingApart .string)).result? s).isSome = true := by
  decide +kernel

end Evaluator

end BasicScript
