import BasicScript.Proofs.Calls.Lexical
import BasicScript.Proofs.Stores.Assignment
import BasicScript.Proofs.Types.Length

/-! # The exchange of two variables

An exchange assigns each value to the other variable and, where the second
assignment fails, gives the first variable its old value back. A variable takes
its own value back as it is, so a failed exchange leaves all values alone, with
one exception: nothing takes the missing value, and so a result slot that held
it keeps what it was given.
-/

namespace BasicScript

/-- Each of two cells holds what the value of the other becomes under its own type, and nothing
else has changed. The second value is converted after the first, beside the arrays that came up
then. -/
structure Store.Exchanged (σ : Store) (a b : CellId) (σ' : Store) : Prop where
  values : ∃ v w σ₁ σ₂, (σ.cell a).type.conform σ (σ.read b) = .ok (v, σ₁) ∧
    (σ.cell b).type.conform σ₁ (σ.read a) = .ok (w, σ₂) ∧
      σ'.cell a = { σ.cell a with value := v } ∧ σ'.cell b = { σ.cell b with value := w } ∧
        σ'.arrays = σ₂.arrays
  spares : σ.Spares σ' (fun id => id = a ∨ id = b) fun _ => False

namespace Run

variable {s : State} {a b : CellId} {nameA nameB : String} {v w : Value} {σ τ : Store}

/-- An exchange whose first assignment fails changes nothing. -/
theorem exchange_refused (nameA nameB : String)
    (h : ¬(s.store.cell a).Takes s.store (s.store.read b)) :
    ∃ f, Run.exchange a b nameA nameB s = .error (.error (.ofFault f)) s := by
  obtain ⟨f, hf⟩ := assign_untaken nameA h
  exact ⟨f, bind_error hf _⟩

/-- After the first assignment of an exchange, it goes on from there. -/
theorem exchange_first (nameB : String)
    (hassign : Run.assign a nameA (s.store.read b) s = .ok v { s with store := τ }) :
    Run.exchange a b nameA nameB s =
      match Run.assign b nameB (s.store.read a) { s with store := τ } with
      | .ok _ s' => .ok v s'
      | .error e s' => .error e (putBack a (s.store.read a) s') :=
  bind_ok hassign _

/-- A variable takes the value that it held back, whatever it has held since. -/
theorem putBack_own (hs : s.Typed) (ha : a.index < s.store.cells.size)
    (hpresent : (s.store.read a).isMissing = false)
    (hgrown : State.Typed { s with store := σ.write a v }) (hadds : s.store.Adds σ)
    (hconstant : (s.store.cell a).constant = false)
    (hgrows : s.Grows { s with store := σ.write a v }) :
    putBack a (s.store.read a) { s with store := σ.write a v } = { s with store := σ } := by
  have ha' : a.index < σ.cells.size := by rwa [hadds.cells]
  have hcell : (σ.write a v).cell a = { s.store.cell a with value := v } := by
    rw [Store.cell_write ha', hadds.cell]
  have hfits : s.Has (s.store.cell a).type (s.store.read a) := hs.store.cell_has ha hpresent
  have hconform := (hfits.grows hgrows).fits.conform hgrown.store
  have hown : s.store.read a = σ.read a := congrArg Cell.value (hadds.cell a).symm
  have hput : (σ.write a v).put a (s.store.read a) = .stored (s.store.read a) σ := by
    unfold Store.put
    rw [hcell, if_neg (by rw [hconstant]; exact Bool.false_ne_true)]
    simp only [hconform]
    rw [hown, Store.write_read ha']
  simp only [putBack, hput]

/-- The missing value is not taken back. -/
theorem putBack_missing : putBack a .empty s = s := by
  have hput : s.store.put a .empty = .constant ∨ ∃ m, s.store.put a .empty = .rejected m := by
    unfold Store.put
    split
    · exact .inl rfl
    · cases hconform : (s.store.cell a).type.conform s.store .empty with
      | ok p => exact absurd ⟨p.1, p.2, hconform⟩ (Ty.not_accepts_empty _ _)
      | error m => exact .inr ⟨m, rfl⟩
  rcases hput with hput | ⟨m, hput⟩
  · simp only [putBack, hput]
  · simp only [putBack, hput]

/-- The first assignment of an exchange has no bearing on whether the second one succeeds. -/
theorem takes_second (hs : s.Typed)
    (hfirst : (s.store.cell a).type.conform s.store (s.store.read b) = .ok (v, σ)) :
    ((σ.write a v).cell b).Takes (σ.write a v) (s.store.read a) ↔
      (s.store.cell b).Takes s.store (s.store.read a) := by
  have hadds := Ty.conform_adds hfirst
  have hclosed := (Ty.conform_has hfirst hs.store (hs.store.cell_holds b)).1.closed
  have hwithin : s.store.Within (s.store.read a) := (hs.store.cell_holds a).within
  obtain ⟨htype, hconstant⟩ := σ.cell_write_type a b v
  rw [Cell.Takes, Cell.Takes, htype, hconstant, hadds.cell, Store.write_withCells,
    Ty.accepts_withCells, Ty.accepts_adds _ hadds hs.store.closed hclosed hwithin]

/-- An exchange whose assignments both succeed. -/
theorem exchanged (hs : s.Typed) (ha : a.index < s.store.cells.size)
    (hb : b.index < s.store.cells.size) (hpresent : (s.store.read a).isMissing = false)
    (hfirst : (s.store.cell a).type.conform s.store (s.store.read b) = .ok (v, σ))
    (hsecond : (s.store.cell b).type.conform (σ.write a v) (s.store.read a) = .ok (w, τ)) :
    s.store.Exchanged a b (τ.write b w) ∧ (τ.write b w).read a = v := by
  -- the second conversion is the one beside the arrays of the first, on the cells as written
  obtain ⟨σ₂, hconform, rfl⟩ : ∃ σ₂,
      (s.store.cell b).type.conform σ (s.store.read a) = .ok (w, σ₂) ∧
        τ = σ₂.withCells (σ.write a v).cells := by
    rw [Store.write_withCells, Ty.conform_withCells] at hsecond
    cases hconform : (s.store.cell b).type.conform σ (s.store.read a) with
    | error m =>
      rw [hconform] at hsecond
      exact nomatch hsecond
    | ok p =>
      rw [hconform] at hsecond
      cases hsecond
      exact ⟨p.2, rfl, rfl⟩
  have hadds := Ty.conform_adds hfirst
  have hadds₂ := hadds.trans (Ty.conform_adds hconform)
  have hτ : σ₂.withCells (σ.write a v).cells = σ₂.write a v := by
    unfold Store.write
    rw [hadds.cells, ← hadds₂.cells]
    rfl
  rw [hτ]
  have ha₂ : a.index < σ₂.cells.size := by rwa [hadds₂.cells]
  have hb₂ : b.index < (σ₂.write a v).cells.size := by
    rw [Store.write, Array.size_modify, hadds₂.cells]
    exact hb
  have hspares : s.store.Spares ((σ₂.write a v).write b w) (fun id => id = a ∨ id = b)
      fun _ => False := ((hadds₂.spares _ _).write (.inl rfl) v).write (.inr rfl) w
  by_cases hab : a = b
  · subst hab
    have hown := (hs.store.cell_has ha hpresent).fits.conform hs.store
    obtain ⟨rfl, rfl⟩ : v = s.store.read a ∧ σ = s.store := by
      rw [hown] at hfirst
      cases hfirst
      exact ⟨rfl, rfl⟩
    obtain ⟨rfl, rfl⟩ : w = s.store.read a ∧ σ₂ = s.store := by
      rw [hown] at hconform
      cases hconform
      exact ⟨rfl, rfl⟩
    have hcell : ((s.store.write a (s.store.read a)).write a (s.store.read a)).cell a =
        { s.store.cell a with value := s.store.read a } := by
      rw [Store.cell_write hb₂, Store.cell_write ha]
    exact ⟨⟨⟨_, _, _, _, hown, hown, hcell, hcell, rfl⟩, hspares⟩, congrArg Cell.value hcell⟩
  · have hcell : ((σ₂.write a v).write b w).cell a = { s.store.cell a with value := v } := by
      rw [Store.cell_write_ne hab, Store.cell_write ha₂, hadds₂.cell]
    have hcell' : ((σ₂.write a v).write b w).cell b = { s.store.cell b with value := w } := by
      rw [Store.cell_write hb₂, Store.cell_write_ne (Ne.symm hab), hadds₂.cell]
    exact ⟨⟨⟨v, w, σ, σ₂, hfirst, hconform, hcell, hcell', rfl⟩, hspares⟩,
      congrArg Cell.value hcell⟩

/-- How an exchange of two cells can end. -/
theorem exchange_cases (nameA nameB : String) (hs : s.Typed) (ha : a.index < s.store.cells.size)
    (hb : b.index < s.store.cells.size) :
    ((s.store.cell a).Takes s.store (s.store.read b) ∧
      (s.store.cell b).Takes s.store (s.store.read a) ∧ ∃ σ', s.store.Exchanged a b σ' ∧
        Run.exchange a b nameA nameB s = .ok (σ'.read a) { s with store := σ' }) ∨
    (¬((s.store.cell a).Takes s.store (s.store.read b) ∧ s.store.read a = .empty) ∧
      ¬((s.store.cell a).Takes s.store (s.store.read b) ∧
        (s.store.cell b).Takes s.store (s.store.read a)) ∧ ∃ f σ', s.store.Adds σ' ∧
          Run.exchange a b nameA nameB s = .error (.error (.ofFault f)) { s with store := σ' }) ∨
    ((s.store.cell a).Takes s.store (s.store.read b) ∧ s.store.read a = .empty ∧
      ∃ f v σ', (s.store.cell a).type.conform s.store (s.store.read b) = .ok (v, σ') ∧
        Run.exchange a b nameA nameB s =
          .error (.error (.ofFault f)) { s with store := σ'.write a v }) := by
  by_cases hfirst : (s.store.cell a).Takes s.store (s.store.read b)
  case neg =>
    obtain ⟨f, hf⟩ := exchange_refused nameA nameB hfirst
    exact .inr (.inl ⟨fun h => hfirst h.1, fun h => hfirst h.1, f, s.store, .refl _, hf⟩)
  obtain ⟨v, σ, hconform, hassign⟩ := assign_taken nameA hfirst
  have hadds := Ty.conform_adds hconform
  have hrun := exchange_first nameB hassign
  by_cases hsecond : (s.store.cell b).Takes s.store (s.store.read a)
  · obtain ⟨w, τ, hconform', hassign'⟩ := assign_taken (s := { s with store := σ.write a v })
      nameB ((takes_second hs hconform).mpr hsecond)
    rw [(σ.cell_write_type a b v).1, hadds.cell] at hconform'
    obtain ⟨hexchanged, hread⟩ := exchanged hs ha hb hsecond.2.1 hconform hconform'
    refine .inl ⟨hfirst, hsecond, _, hexchanged, ?_⟩
    rw [hrun, hassign', hread]
  · obtain ⟨f, hf⟩ := assign_untaken (s := { s with store := σ.write a v }) nameB
      (mt (takes_second hs hconform).mp hsecond)
    by_cases hmissing : s.store.read a = .empty
    · refine .inr (.inr ⟨hfirst, hmissing, f, v, σ, hconform, ?_⟩)
      simp only [hrun, hf]
      rw [hmissing, putBack_missing]
    · obtain ⟨hgrown, hgrows, -⟩ := hs.stored (hs.store.cell_holds b) hfirst.1 hconform
      refine .inr (.inl ⟨fun h => hmissing h.2, fun h => hsecond h.2, f, σ, hadds, ?_⟩)
      simp only [hrun, hf]
      rw [putBack_own hs ha (Value.isMissing_eq_false hmissing) hgrown hadds hfirst.1 hgrows]

end Run

namespace Evaluator

/-- An exchange of two visible variables succeeds exactly if each takes the value of the other.
Then each holds what the other held, converted to its own type, and nothing else has changed. An
exchange that fails leaves both as they were, except for a first variable that held no value, a
result slot: it keeps what it was given. -/
theorem swap_settles (r : Evaluator) (hint : Option Ty) {settings : Settings} {s : State}
    (h : s.Amid settings) {e left right : Expr} (he : e.kind = .binary .swap left right)
    {nameA nameB : String} (hleft : left.kind = .name nameA) (hright : right.kind = .name nameB)
    {a b : CellId} (ha : s.env.cell? nameA = some a) (hb : s.env.cell? nameB = some b) :
    ((∃ w t, r.expr hint e s = .ok w t) ↔ (s.store.cell a).Takes s.store (s.store.read b) ∧
      (s.store.cell b).Takes s.store (s.store.read a)) ∧
    (∀ w t, r.expr hint e s = .ok w t → ∃ σ, t = { s with store := σ } ∧
      s.store.Exchanged a b σ ∧ w = σ.read a) ∧
    ∀ stop t, r.expr hint e s = .error stop t → ∃ σ, t = { s with store := σ } ∧
      (¬((s.store.cell a).Takes s.store (s.store.read b) ∧ s.store.read a = .empty) →
        s.store.Adds σ) ∧
      ((s.store.cell a).Takes s.store (s.store.read b) ∧ s.store.read a = .empty →
        s.ResemblesResultSlot a ∧ ∃ v σ', (s.store.cell a).type.conform s.store (s.store.read b) =
          .ok (v, σ') ∧ σ = σ'.write a v ∧ σ.read a ≠ .empty) := by
  have hcells : r.exprKind hint e.span e.kind s = Run.exchange a b nameA nameB s := by
    rw [he]
    show swapExpr left right s = _
    unfold swapExpr
    rw [hleft, hright]
    exact (Run.bind_ok (Run.cellOf_ok ha) _).trans (Run.bind_ok (Run.cellOf_ok hb) _)
  have hs := h.typed
  rcases Run.exchange_cases nameA nameB hs (hs.visible ha) (hs.visible hb)
    with ⟨hfirst, hsecond, σ, hexchanged, hrun⟩ | ⟨hnot, hrefused, f, σ, hadds, hrun⟩ |
      ⟨hfirst, hmissing, f, v, σ, hconform, hrun⟩
  · have hok := Run.atSpan_ok e.span (hcells.trans hrun)
    refine ⟨⟨fun _ => ⟨hfirst, hsecond⟩, fun _ => ⟨_, _, hok⟩⟩, fun w t hw => ?_,
      fun stop t he' => ?_⟩
    · cases hok.symm.trans hw
      exact ⟨σ, rfl, hexchanged, rfl⟩
    · exact nomatch hok.symm.trans he'
  · have hfails := Run.atSpan_error e.span (hcells.trans hrun)
    refine ⟨⟨fun ⟨w, t, hw⟩ => ?_, fun htakes => absurd htakes hrefused⟩, fun w t hw => ?_,
      fun stop t he' => ?_⟩
    · exact nomatch hfails.symm.trans hw
    · exact nomatch hfails.symm.trans hw
    · cases hfails.symm.trans he'
      exact ⟨σ, rfl, fun _ => hadds, fun h => absurd h hnot⟩
  · have hfails := Run.atSpan_error e.span (hcells.trans hrun)
    have hsecond : ¬(s.store.cell b).Takes s.store (s.store.read a) := by
      rintro ⟨-, hpresent, -⟩
      rw [hmissing] at hpresent
      exact nomatch hpresent
    refine ⟨⟨fun ⟨w, t, hw⟩ => ?_, fun htakes => absurd htakes.2 hsecond⟩, fun w t hw => ?_,
      fun stop t he' => ?_⟩
    · exact nomatch hfails.symm.trans hw
    · exact nomatch hfails.symm.trans hw
    · cases hfails.symm.trans he'
      refine ⟨_, rfl, fun hnot => absurd ⟨hfirst, hmissing⟩ hnot, fun _ => ⟨?_, ?_⟩⟩
      · exact hs.slot_of_missing (hs.visible ha) hmissing
      · refine ⟨v, σ, hconform, rfl, ?_⟩
        rw [Store.read_write (by rw [(Ty.conform_adds hconform).cells]; exact hs.visible ha)]
        rintro rfl
        exact nomatch Ty.conform_present hconform

/-- The program `var x as int = 1; var y as int = 2`. -/
def declaringPair : List Stmt :=
  [.generated (.declare "x" (.prim .int) (.generated (.literal (.int 1))) false),
    .generated (.declare "y" (.prim .int) (.generated (.literal (.int 2))) false)]

/-- The expression that exchanges two variables. -/
def exchanging (a b : String) : Expr :=
  .generated (.binary .swap (.generated (.name a)) (.generated (.name b)))

theorem swap_settles_declaringPair :
    let s := ((interrupted .standard (fun _ => false) 4).run declaringPair).state
      (.initial ⟨false, none, true⟩)
    Reaches .standard (.initial ⟨false, none, true⟩) s ∧
      s.env.cell? "x" = some ⟨0⟩ ∧ s.env.cell? "y" = some ⟨1⟩ ∧
      ∃ w t, (ofFuel .standard 1).expr none (exchanging "x" "y") s = .ok w t ∧
        s.store.Exchanged ⟨0⟩ ⟨1⟩ t.store := by
  intro s
  have h : Reaches .standard (.initial ⟨false, none, true⟩) s :=
    .run declaringPair (fun _ => false) 4 .refl
  have hx : s.env.cell? "x" = some ⟨0⟩ := by decide +kernel
  have hy : s.env.cell? "y" = some ⟨1⟩ := by decide +kernel
  obtain ⟨hiff, hdone, -⟩ := swap_settles (ofFuel .standard 1) none h.amid
    (e := exchanging "x" "y") rfl rfl rfl hx hy
  obtain ⟨w, t, hw⟩ := hiff.mpr ⟨⟨rfl, rfl, _, _, rfl⟩, ⟨rfl, rfl, _, _, rfl⟩⟩
  obtain ⟨σ, rfl, hexchanged, -⟩ := hdone w t hw
  exact ⟨h, hx, hy, w, _, hw, hexchanged⟩

/-- The program `alias slot as (none given); sub f() as slot { var b as int = 5; f <> b }; f()`. -/
def exchangingSlot : List Stmt :=
  [.generated (.alias "slot" .inferred),
    .generated (.sub (.mk "f" [] (.named "slot")
      [.generated (.declare "b" (.prim .int) (.generated (.literal (.int 5))) false),
        .generated (.expression (exchanging "f" "b"))] false)),
    .generated (.expression (.generated (.invoke "f" [])))]

/-- In the body of the sub, after the declaration, the result slot holds no value. The exchange
fails, since `b` does not take the missing value, and leaves the slot with the number of `b`. -/
theorem swap_keeps_given :
    let initial := State.initial ⟨false, none, true⟩
    let s := ((interrupted .standard (fun u => u.store.cells.size == 2) 8).run
      exchangingSlot).state initial
    let t := s.onStack [[⟨1⟩, ⟨0⟩]]
    let run := (ofFuel .standard 1).expr none (exchanging "f" "b")
    Reaches .standard initial s ∧ t.Amid ⟨false, none, true⟩ ∧
      t.env.cell? "f" = some ⟨0⟩ ∧ t.env.cell? "b" = some ⟨1⟩ ∧
      messageOf? (run t) = some Fault.assignedEmpty.message ∧
      t.store.read ⟨0⟩ = .empty ∧ ((run.state t).store.read ⟨0⟩).integral? = some 5 ∧
      ((((ofFuel .standard 8).run exchangingSlot).state initial).store.read ⟨0⟩).integral? =
        some 5 := by
  intro initial s t run
  have h : Reaches .standard initial s := .run exchangingSlot _ 8 .refl
  have hstack : ∀ path ∈ [[(⟨1⟩ : ScopeId), ⟨0⟩]],
      ScopePath.Outward path ∧ ∀ id ∈ path, id.index < s.env.scopes.size := by
    have hsize : s.env.scopes.size = 2 := by decide +kernel
    rw [hsize]
    unfold ScopePath.Outward
    decide
  have hmissing : (t.store.read ⟨0⟩).isMissing = true := by decide +kernel
  refine ⟨h, h.amid.onStack hstack, ?_, ?_, ?_, Value.eq_empty hmissing, ?_, ?_⟩
  all_goals decide +kernel

end Evaluator

end BasicScript
