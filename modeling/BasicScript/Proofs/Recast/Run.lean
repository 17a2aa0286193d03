import BasicScript.Proofs.Frame.Run
import BasicScript.Proofs.Recast.Basic

/-! # Recast primitive runs

Reading, storing, allocating and declaring, and the loops over statements and
values. A declaration of a sub or of a data type keeps a path that leads
outwards, since the current one does.
-/

namespace BasicScript

namespace Recast.Carries

variable {R : Recast} {α β : Type} {Q : α → Prop} {g : α → β}

/-- A run that ends in one of two ways, both of them recast. -/
theorem of_cases {x : Run α} {y : Run β}
    (h : ∀ s : State, s.env.Nested →
      (∃ a t, x s = .ok a t ∧ y (R.state s) = .ok (g a) (R.state t) ∧ t.env.Nested ∧ Q a) ∨
      ∃ e t, x s = .error e t ∧ y (R.state s) = .error (R.stop e) (R.state t) ∧ t.env.Nested) :
    R.Carries Q g x y := by
  apply of_eq
  intro s hs
  rcases h s hs with ⟨a, t, hx, hy, ht, ha⟩ | ⟨e, t, hx, hy, ht⟩
  · rw [hx]
    exact ⟨⟨ht, ha⟩, hy⟩
  · rw [hx]
    exact ⟨ht, hy⟩

/-- A reading that is the same in every recast state. -/
theorem reads {p : State → α} {q : State → β} (h : ∀ s, q (R.state s) = g (p s)) :
    R.Maps g (Run.read p) (Run.read q) :=
  read fun s _ => ⟨h s, trivial⟩

theorem typeOf (v : Value) : R.Maps id (Run.typeOf v) (Run.typeOf (v.mapSpans R.span)) :=
  reads fun s => s.store.typeOf?_mapSpans v

/-- A view that ends for the same values in every recast store. -/
theorem ending {ends ends' : Store → Bool} (h : ∀ σ : Store, ends' (σ.mapSpans R.span) = ends σ) :
    R.Maps id (Run.ending ends) (Run.ending ends') := by
  refine of_cases fun s hs => ?_
  have hends : ends' (R.state s).store = ends s.store := h s.store
  rcases Run.ending_cases ends s with ⟨hgo, hrun⟩ | ⟨hgo, hrun⟩
  · exact .inl ⟨_, _, hrun, if_pos (hends.trans hgo), hs, trivial⟩
  · exact .inr ⟨_, _, hrun, if_neg (by simp [hends, hgo]), hs⟩

theorem text (v : Value) : R.Maps id (Run.text v) (Run.text (v.mapSpans R.span)) :=
  (ending fun σ => σ.textEnds_mapSpans v).bind fun _ _ => reads fun s => s.store.text_mapSpans v

theorem failOn (fault : Option Ty → Fault) (v : Value) :
    R.Carries Q g (Run.failOn fault v) (Run.failOn fault (v.mapSpans R.span)) :=
  (typeOf v).bind fun t _ => fail (fault t)

theorem cellOf (name : String) : R.Maps id (Run.cellOf name) (Run.cellOf name) := by
  refine (reads (g := id) fun s => s.env.cell?_mapSpans name).bind fun found _ => ?_
  exact require _ (congrFun Option.map_id found).symm fun _ _ => trivial

theorem elementsOf (v : Value) : R.Maps (List.map (Value.mapSpans R.span)) (Run.elementsOf v)
    (Run.elementsOf (v.mapSpans R.span)) := by
  refine (reads fun s => s.store.elements?_mapSpans v).bind fun found _ => ?_
  cases found with
  | none => exact failOn _ v
  | some vs => exact pure rfl trivial

theorem position (index : Value) :
    R.Maps id (Run.position index) (Run.position (index.mapSpans R.span)) := by
  unfold Run.position
  rw [index.integral?_mapSpans]
  have hfail : R.Maps (α := Nat) id (do Run.fail (.invalidIndex (← Run.text index)))
      (do Run.fail (.invalidIndex (← Run.text (index.mapSpans R.span)))) :=
    (text index).bind fun _ _ => fail _
  cases index.integral? with
  | none => exact hfail
  | some n => exact ite Iff.rfl (fun _ => pure rfl trivial) fun _ => hfail

theorem atIndex (index : Value) {a : Option α} {b : Option β} (hb : b = a.map g)
    (ha : ∀ v ∈ a, Q v) :
    R.Carries Q g (Run.atIndex index a) (Run.atIndex (index.mapSpans R.span) b) := by
  subst hb
  cases a with
  | none => exact (text index).bind fun _ _ => fail _
  | some a => exact pure rfl (ha a rfl)

theorem arrayElement (id : ArrayId) : R.Maps (fun t : Ty => t)
    (Run.read fun s => (s.store.block id).element)
    (Run.read fun s => (s.store.block id).element) := by
  refine reads fun s => ?_
  show ((s.store.mapSpans R.span).block id).element = _
  rw [s.store.block_mapSpans]
  rfl

theorem arraySize (id : ArrayId) : R.Maps (fun n : Nat => n)
    (Run.read fun s => (s.store.block id).values.size)
    (Run.read fun s => (s.store.block id).values.size) := by
  refine reads fun s => ?_
  show ((s.store.mapSpans R.span).block id).values.size = _
  rw [s.store.block_mapSpans, ArrayBlock.mapSpans, Array.size_map]

theorem newArray (element : Ty) (vs : List Value) :
    R.Maps (Value.mapSpans R.span) (Run.newArray element vs)
      (Run.newArray element (vs.map (Value.mapSpans R.span))) := by
  refine of_cases fun s hs => .inl ⟨_, _, rfl, ?_, hs, trivial⟩
  simp only [Run.newArray, state, s.store.newArray_mapSpans]
  rfl

theorem newCell (c : Cell) :
    R.Maps id (Run.newCell c) (Run.newCell (c.mapSpans R.span)) := by
  refine of_cases fun s hs => .inl ⟨_, _, rfl, ?_, hs, trivial⟩
  simp only [Run.newCell, state, s.store.newCell_mapSpans]
  rfl

theorem fit (t : Ty) (v : Value) (rejected : Mismatch → Option Ty → Fault) :
    R.Maps (Value.mapSpans R.span) (Run.fit t v rejected)
      (Run.fit t (v.mapSpans R.span) rejected) := by
  refine of_cases fun s hs => ?_
  have hconform := t.conform_mapSpans (f := R.span) s.store v
  rcases Run.fit_cases t v rejected s with ⟨w, σ, hw, hrun⟩ | ⟨m, hm, hrun⟩
  · refine .inl ⟨_, _, hrun, ?_, hs, trivial⟩
    rw [hw] at hconform
    simp only [Run.fit, state, hconform, Except.map]
  · refine .inr ⟨_, _, hrun, ?_, hs⟩
    rw [hm] at hconform
    simp only [Run.fit, state, hconform, Except.map, s.store.typeOf?_mapSpans]
    rfl

theorem conform (t : Ty) (v : Value) :
    R.Maps (Value.mapSpans R.span) (Run.conform t v) (Run.conform t (v.mapSpans R.span)) :=
  fit t v _

theorem cast (t : Ty) (v : Value) :
    R.Maps (Value.mapSpans R.span) (Run.cast t v) (Run.cast t (v.mapSpans R.span)) := by
  refine (ending fun σ => t.castEnds_mapSpans σ v).bind fun _ _ => of_cases fun s hs => ?_
  have hcast : t.cast (R.state s).store (v.mapSpans R.span) =
      (t.cast s.store v).map fun p => (p.1.mapSpans R.span, p.2.mapSpans R.span) :=
    t.cast_mapSpans s.store v
  have htype : (R.state s).store.typeOf? (v.mapSpans R.span) = s.store.typeOf? v :=
    s.store.typeOf?_mapSpans v
  simp only [hcast, htype]
  cases t.cast s.store v with
  | none => exact .inr ⟨_, _, rfl, rfl, hs⟩
  | some p => exact .inl ⟨_, _, rfl, rfl, hs, trivial⟩

theorem modifyStore {f f' : Store → Store}
    (h : ∀ σ : Store, f' (σ.mapSpans R.span) = (f σ).mapSpans R.span) :
    R.Maps id (Run.modifyStore f) (Run.modifyStore f') := by
  refine of_cases fun s hs => .inl ⟨_, _, rfl, ?_, hs, trivial⟩
  simp only [Run.modifyStore, state, h, id]

theorem assign (id : CellId) (name : String) (v : Value) :
    R.Maps (Value.mapSpans R.span) (Run.assign id name v)
      (Run.assign id name (v.mapSpans R.span)) := by
  unfold Run.assign
  refine ite (by rw [v.isMissing_mapSpans]) (fun _ => fail _) fun _ => ?_
  refine (reads fun s => s.store.cell_mapSpans id).bind fun c _ => ?_
  refine ite Iff.rfl (fun _ => fail _) fun _ => ?_
  refine (conform c.type v).bind fun w _ => ?_
  exact (modifyStore fun σ => σ.write_mapSpans id w).bind fun _ _ => pure rfl trivial

/-- A value goes back into a cell of a recast state as it does in the state itself. -/
theorem putBack (id : CellId) (v : Value) (s : State) :
    Run.putBack id (v.mapSpans R.span) (R.state s) = R.state (Run.putBack id v s) := by
  have hput : (R.state s).store.put id (v.mapSpans R.span) =
      (s.store.put id v).mapSpans R.span := s.store.put_mapSpans id v
  unfold Run.putBack
  rw [hput]
  cases s.store.put id v <;> rfl

theorem putBack_nested (id : CellId) (v : Value) {s : State} (hs : s.env.Nested) :
    (Run.putBack id v s).env.Nested := by
  unfold Run.putBack
  split <;> exact hs

theorem exchange (a b : CellId) (nameA nameB : String) :
    R.Maps (Value.mapSpans R.span) (Run.exchange a b nameA nameB)
      (Run.exchange a b nameA nameB) := by
  refine (reads fun s => s.store.read_mapSpans a).bind fun va _ => ?_
  refine (reads fun s => s.store.read_mapSpans b).bind fun vb _ => ?_
  refine (assign a nameA vb).bind fun stored _ s hs => ?_
  have h := assign (R := R) b nameB va s hs
  cases hrun : Run.assign b nameB va s with
  | ok w t =>
    rw [hrun] at h
    obtain ⟨ht, -, hy⟩ := h.ok
    refine ⟨⟨ht, trivial⟩, .inl ?_⟩
    simp only [hy, result]
  | error e t =>
    rw [hrun] at h
    obtain ⟨ht, hy⟩ := h.error
    refine .of_error (putBack_nested a va ht) (hy.imp (fun hy => ?_) id)
    simp only [hy, putBack]

/-- A declaration that changes the tables of the current scope alone. -/
theorem declare (entity : Entity) (name : String) {takes takes' : Environment → Bool}
    {add add' : Environment → Environment}
    (htakes : ∀ env : Environment, takes' (env.mapSpans R.span) = takes env)
    (hadd : ∀ env : Environment, add' (env.mapSpans R.span) = (add env).mapSpans R.span)
    (hnested : ∀ env : Environment, env.Nested → (add env).Nested) :
    R.Maps id (Run.declare entity name takes add) (Run.declare entity name takes' add') := by
  refine of_cases fun s hs => ?_
  have htakes : takes' (R.state s).env = takes s.env := htakes s.env
  unfold Run.declare
  rw [htakes]
  by_cases h : takes s.env = true
  · rw [if_pos h, if_pos h]
    refine .inl ⟨_, _, rfl, ?_, hnested _ hs, trivial⟩
    simp only [state, hadd, id]
  · rw [if_neg h, if_neg h]
    exact .inr ⟨_, _, rfl, rfl, hs⟩

theorem declareSub (signature name : String) (sub : Sub) (hsub : ScopePath.Outward sub.scope) :
    R.Maps id (Run.declare .sub signature (·.takesSub name signature) (·.addSub sub))
      (Run.declare .sub signature (·.takesSub name signature)
        (·.addSub (sub.mapSpans R.span))) := by
  apply declare
  · intro env
    simp only [Environment.takesSub, Environment.currentScope_mapSpans, Scope.overloads_mapSpans,
      List.any_map]
    rfl
  · intro env
    exact env.modifyCurrent_mapSpans fun sc => by simp [Scope.mapSpans]
  · intro env henv
    refine henv.modifyCurrent (fun sc sub' hsub' => ?_) fun sc d hd => .inl hd
    rcases List.mem_append.mp hsub' with hmem | hmem
    · exact .inl hmem
    · exact .inr (List.mem_singleton.mp hmem ▸ hsub)

theorem declareData (name : String) (decl : DataDecl) (hdecl : ScopePath.Outward decl.scope) :
    R.Maps id (Run.declare .data name (·.takesData name) (·.addData decl))
      (Run.declare .data name (·.takesData name) (·.addData (decl.mapSpans R.span))) := by
  apply declare
  · intro env
    simp [Environment.takesData]
  · intro env
    exact env.modifyCurrent_mapSpans fun sc => rfl
  · intro env henv
    refine henv.modifyCurrent (fun sc sub hsub => .inl hsub) fun sc d hd => ?_
    rcases List.mem_cons.mp hd with rfl | hmem
    · exact .inr hdecl
    · exact .inl hmem

theorem declareEnum (name : String) (decl : EnumDecl) :
    R.Maps id (Run.declare .enum name (·.takesEnum name) (·.addEnum decl))
      (Run.declare .enum name (·.takesEnum name) (·.addEnum (decl.mapSpans R.span))) := by
  apply declare
  · intro env
    simp [Environment.takesEnum]
  · intro env
    exact env.modifyCurrent_mapSpans fun sc => rfl
  · intro env henv
    exact henv.modifyCurrent (fun sc sub hsub => .inl hsub) fun sc d hd => .inl hd

theorem declareAlias (name : String) (t : Ty) :
    R.Maps id (Run.declare .alias name (·.takesAlias name) (·.addAlias name t))
      (Run.declare .alias name (·.takesAlias name) (·.addAlias name t)) := by
  apply declare
  · intro env
    simp only [Environment.takesAlias, Environment.currentScope_mapSpans]
    rfl
  · intro env
    exact env.modifyCurrent_mapSpans fun sc => rfl
  · intro env henv
    exact henv.modifyCurrent (fun sc sub hsub => .inl hsub) fun sc d hd => .inl hd

theorem declareVariable (name : String) (c : Cell) :
    R.Maps id (Run.declareVariable name c)
      (Run.declareVariable name (c.mapSpans R.span)) := by
  refine of_cases fun s hs => ?_
  have htakes : (R.state s).env.takesVariable name = s.env.takesVariable name := by
    simp only [state, Environment.takesVariable, Environment.currentScope_mapSpans]
    rfl
  unfold Run.declareVariable
  rw [htakes]
  by_cases h : s.env.takesVariable name = true
  · rw [if_pos h, if_pos h]
    refine .inl ⟨_, _, rfl, ?_, hs.modifyCurrent (fun sc sub hsub => .inl hsub)
      fun sc d hd => .inl hd, trivial⟩
    simp only [state, s.store.newCell_mapSpans]
    refine congrArg (fun env => EStateM.Result.ok _ (State.mk _ env _ _ _ _)) ?_
    exact s.env.modifyCurrent_mapSpans fun sc => rfl
  · rw [if_neg h, if_neg h]
    exact .inr ⟨_, _, rfl, rfl, hs⟩

theorem loop {step step' : Run LoopStep} (h : R.Maps (LoopStep.mapSpans R.span) step step')
    (rounds : Nat) :
    R.Maps (Flow.mapSpans R.span) (Run.loop step rounds) (Run.loop step' rounds) := by
  induction rounds with
  | zero => exact exhausted
  | succ rounds ih =>
    refine h.bind fun next _ => ?_
    cases next with
    | again => exact ih
    | stop => exact pure rfl trivial
    | pass s => exact pure rfl trivial

theorem forValues {step step' : Value → Run LoopStep}
    (h : ∀ v, R.Maps (LoopStep.mapSpans R.span) (step v) (step' (v.mapSpans R.span)))
    (vs : List Value) : R.Maps (Flow.mapSpans R.span) (Run.forValues step vs)
      (Run.forValues step' (vs.map (Value.mapSpans R.span))) := by
  induction vs with
  | nil => exact pure rfl trivial
  | cons v rest ih =>
    refine (h v).bind fun next _ => ?_
    cases next with
    | again => exact ih
    | stop => exact pure rfl trivial
    | pass s => exact pure rfl trivial

end Recast.Carries

end BasicScript
