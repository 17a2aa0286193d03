import BasicScript.Proofs.Frame.Basic
import BasicScript.Proofs.Types.Allocation

/-! # Frames of the primitive runs

Allocation, typed stores, declarations, scopes, calls and loops.
-/

namespace BasicScript

theorem CallStack.push_ok {c calls : CallStack} {frame : CallFrame}
    (h : c.push frame = .ok calls) : calls = ⟨frame :: c.frames, c.limit⟩ := by
  simp only [CallStack.push] at h
  split at h
  · split at h
    · exact nomatch h
    · exact (Except.ok.inj h).symm
  · exact (Except.ok.inj h).symm

namespace Frame

variable {o : Prop} {s t : State}

theorem leaveCall {frame : CallFrame} {calls : CallStack} (hpush : s.calls.push frame = .ok calls)
    (h : Frame o { s with calls := calls } t) : Frame o s (Run.popCall t) where
  grows := ⟨h.grows.store, h.grows.scopes⟩
  active := h.active
  calls := by
    show t.calls.pop = s.calls
    rw [h.calls, CallStack.push_ok hpush]
    rfl
  returns := h.returns
  tables := h.tables

theorem leaveReturns {type : Ty} (h : Frame o { s with returns := type :: s.returns } t) :
    Frame o s (Run.popReturns t) where
  grows := ⟨h.grows.store, h.grows.scopes⟩
  active := h.active
  calls := h.calls
  returns := by
    show t.returns.tail = s.returns
    rw [h.returns]
    rfl
  tables := h.tables

end Frame

namespace Run

theorem fit_cases (t : Ty) (v : Value) (rejected : Mismatch → Option Ty → Fault) (s : State) :
    (∃ w σ, t.conform s.store v = .ok (w, σ) ∧
      Run.fit t v rejected s = .ok w { s with store := σ }) ∨
    ∃ m, t.conform s.store v = .error m ∧
      Run.fit t v rejected s = .error (.error (.ofFault (rejected m (s.store.typeOf? v)))) s := by
  unfold Run.fit
  cases h : t.conform s.store v with
  | ok p => exact .inl ⟨p.1, p.2, rfl, rfl⟩
  | error m => exact .inr ⟨m, rfl, rfl⟩

/-- A cast comes to an end with a value or with a fault, unless it takes a text without an end. -/
theorem cast_cases (t : Ty) (v : Value) (s : State) :
    (t.castEnds s.store v = true ∧ ∃ w σ, t.cast s.store v = some (w, σ) ∧
      Run.cast t v s = .ok w { s with store := σ }) ∨
    (t.castEnds s.store v = true ∧ t.cast s.store v = none ∧
      Run.cast t v s = .error (.error (.ofFault (.invalidCast (s.store.typeOf? v) t))) s) ∨
    t.castEnds s.store v = false ∧ Run.cast t v s = .error .outOfFuel s := by
  rcases ending_cases (fun σ => t.castEnds σ v) s with ⟨hends, hgo⟩ | ⟨hends, hstop⟩
  · cases h : t.cast s.store v with
    | some p =>
      exact .inl ⟨hends, p.1, p.2, rfl, (bind_ok hgo _).trans (by simp only [h])⟩
    | none =>
      exact .inr (.inl ⟨hends, rfl, (bind_ok hgo _).trans (by simp only [h, fail])⟩)
  · exact .inr (.inr ⟨hends, bind_error hstop _⟩)

theorem cast_ok {t : Ty} {v w : Value} {s : State} {σ : Store} (hends : t.castEnds s.store v = true)
    (hcast : t.cast s.store v = some (w, σ)) : Run.cast t v s = .ok w { s with store := σ } := by
  rcases cast_cases t v s with ⟨-, w', σ', hcast', hrun⟩ | ⟨-, hnone, -⟩ | ⟨hgo, -⟩
  · obtain ⟨rfl, rfl⟩ := Prod.mk.inj (Option.some.inj (hcast.symm.trans hcast'))
    exact hrun
  · exact nomatch hcast.symm.trans hnone
  · exact nomatch hends.symm.trans hgo

/-- A value that is there reaches a cell that is no constant through the type of the cell. -/
theorem assign_eq {id : CellId} {v : Value} {s : State} (name : String)
    (hc : (s.store.cell id).constant = false) (hv : v.isMissing = false) :
    Run.assign id name v s = (Run.conform (s.store.cell id).type v >>= fun w => do
      Run.modifyStore (·.write id w)
      Pure.pure w) s := by
  unfold Run.assign
  rw [if_neg (by rw [hv]; exact Bool.false_ne_true)]
  show (if (s.store.cell id).constant then _ else _ : Run Value) s = _
  rw [if_neg (by rw [hc]; exact Bool.false_ne_true)]

theorem assign_cases (id : CellId) (name : String) (v : Value) (s : State) :
    (∃ w σ, (s.store.cell id).constant = false ∧ v.isMissing = false ∧
      (s.store.cell id).type.conform s.store v = .ok (w, σ) ∧
      Run.assign id name v s = .ok w { s with store := σ.write id w }) ∨
    ∃ f, Run.assign id name v s = .error (.error (.ofFault f)) s := by
  by_cases hv : v.isMissing = true
  · refine .inr ⟨.assignedEmpty, ?_⟩
    unfold Run.assign
    rw [if_pos hv]
    rfl
  by_cases hc : (s.store.cell id).constant = true
  · refine .inr ⟨.reassignedConstant name, ?_⟩
    unfold Run.assign
    rw [if_neg hv]
    show (if (s.store.cell id).constant then _ else _ : Run Value) s = _
    rw [if_pos hc]
    rfl
  rw [Bool.not_eq_true] at hv hc
  have hassign := assign_eq name hc hv
  rcases fit_cases (s.store.cell id).type v _ s with ⟨w, σ, hconform, hrun⟩ | ⟨m, -, hrun⟩
  · exact .inl ⟨w, σ, hc, hv, hconform, (hassign.trans (bind_ok hrun _)).trans rfl⟩
  · exact .inr ⟨_, hassign.trans (bind_error hrun _)⟩

theorem declareVariable_cases (name : String) (cell : Cell) (s : State) :
    (s.env.takesVariable name = true ∧ Run.declareVariable name cell s =
      .ok (s.store.newCell cell).1 { s with
        store := (s.store.newCell cell).2
        env := s.env.addVariable name (s.store.newCell cell).1 }) ∨
    ∃ f, Run.declareVariable name cell s = .error (.error (.ofFault f)) s := by
  unfold Run.declareVariable
  by_cases h : s.env.takesVariable name = true
  · exact .inl ⟨h, if_pos h⟩
  · exact .inr ⟨_, if_neg h⟩

theorem declare_cases (entity : Entity) (name : String) (takes : Environment → Bool)
    (add : Environment → Environment) (s : State) :
    (takes s.env = true ∧
      Run.declare entity name takes add s = .ok () { s with env := add s.env }) ∨
    ∃ f, Run.declare entity name takes add s = .error (.error (.ofFault f)) s := by
  unfold Run.declare
  by_cases h : takes s.env = true
  · exact .inl ⟨h, if_pos h⟩
  · exact .inr ⟨_, if_neg h⟩

end Run

namespace Run.Tracks

variable {α : Type} {ρ : Option (List Ty)} {c o : Prop} {x y : Run α}

theorem still_at {s : State} {e : Stop} (h : x s = .error e s) : Frame o s (x.state s) := by
  rw [state_error h]
  exact .refl o s

theorem typeOf (v : Value) : Tracks ρ c o (Run.typeOf v) (Run.typeOf v) := read _

theorem text (v : Value) : Tracks ρ c o (Run.text v) (Run.text v) :=
  (ending _).bind fun _ => read _

theorem failOn (f : Option Ty → Fault) (v : Value) :
    Tracks ρ c o (Run.failOn f v : Run α) (Run.failOn f v) :=
  (typeOf v).bind fun _ => fail _

theorem cellOf (name : String) : Tracks ρ c o (Run.cellOf name) (Run.cellOf name) :=
  (read _).bind fun _ => require _ _

theorem elementsOf (v : Value) : Tracks ρ c o (Run.elementsOf v) (Run.elementsOf v) := by
  refine (read _).bind fun found => ?_
  cases found
  · exact failOn _ _
  · exact pure _

theorem position (index : Value) : Tracks ρ c o (Run.position index) (Run.position index) := by
  unfold Run.position
  split
  · exact (pure _).ite ((text _).bind fun _ => fail _)
  · exact (text _).bind fun _ => fail _

theorem atIndex (index : Value) (found : Option α) :
    Tracks ρ c o (Run.atIndex index found) (Run.atIndex index found) := by
  cases found
  · exact (text _).bind fun _ => fail _
  · exact pure _

theorem newArray (element : Ty) (values : List Value) :
    Tracks ρ c o (Run.newArray element values) (Run.newArray element values) :=
  same fun s => .ofStore o (.newArray s.store element values)

theorem newCell (cell : Cell) : Tracks ρ c o (Run.newCell cell) (Run.newCell cell) :=
  same fun s => .ofStore o (.newCell s.store cell)

theorem fit (t : Ty) (v : Value) (rejected : Mismatch → Option Ty → Fault) :
    Tracks ρ c o (Run.fit t v rejected) (Run.fit t v rejected) := by
  refine same fun s => ?_
  rcases fit_cases t v rejected s with ⟨w, σ, hconform, hrun⟩ | ⟨m, -, hrun⟩
  · exact state_ok hrun ▸ .ofStore o (Ty.conform_adds hconform).grows
  · exact still_at hrun

theorem conform (t : Ty) (v : Value) : Tracks ρ c o (Run.conform t v) (Run.conform t v) :=
  fit t v _

theorem cast (t : Ty) (v : Value) : Tracks ρ c o (Run.cast t v) (Run.cast t v) := by
  refine same fun s => ?_
  rcases cast_cases t v s with ⟨-, w, σ, hcast, hrun⟩ | ⟨-, -, hrun⟩ | ⟨-, hrun⟩
  · exact state_ok hrun ▸ .ofStore o (Ty.cast_adds hcast).grows
  · exact still_at hrun
  · exact still_at hrun

theorem modifyStore {f : Store → Store} (hf : ∀ σ : Store, σ.Grows (f σ)) :
    Tracks ρ c o (Run.modifyStore f) (Run.modifyStore f) :=
  same fun s => .ofStore o (hf s.store)

theorem assign (id : CellId) (name : String) (v : Value) :
    Tracks ρ c o (Run.assign id name v) (Run.assign id name v) := by
  refine same fun s => ?_
  rcases assign_cases id name v s with ⟨w, σ, hc, -, hconform, hrun⟩ | ⟨f, hrun⟩
  · have hadds := Ty.conform_adds hconform
    exact state_ok hrun ▸ .ofStore o (hadds.grows.trans
      (.write (by rw [hadds.cell]; exact hc) (Ty.conform_present hconform)))
  · exact still_at hrun

theorem putBack (id : CellId) (v : Value) (s : State) : Frame o s (Run.putBack id v s) := by
  unfold Run.putBack Store.put
  by_cases hc : (s.store.cell id).constant = true
  · simp only [hc, if_true]
    exact .refl o s
  · simp only [hc]
    cases hconform : (s.store.cell id).type.conform s.store v with
    | error m => exact .refl o s
    | ok p =>
      have hadds := Ty.conform_adds hconform
      exact .ofStore o (hadds.grows.trans
        (.write (by rw [hadds.cell]; simpa using hc) (Ty.conform_present hconform)))

theorem exchange (a b : CellId) (nameA nameB : String) :
    Tracks ρ c o (Run.exchange a b nameA nameB) (Run.exchange a b nameA nameB) := by
  refine (read _).bind fun va => (read _).bind fun vb => (assign a nameA vb).bind fun w => ?_
  refine same fun s => ?_
  have hassign := (assign (ρ := none) (c := c) (o := o) b nameB va).frame s
  unfold state at hassign ⊢
  cases h : Run.assign b nameB va s with
  | ok v s' => simpa only [h] using hassign
  | error e s' =>
    simp only [h] at hassign ⊢
    exact hassign.trans (putBack a va s')

theorem declare (entity : Entity) (name : String) (takes : Environment → Bool)
    {add : Environment → Environment} (h : ∀ s : State, Frame True s { s with env := add s.env }) :
    Tracks ρ c True (Run.declare entity name takes add) (Run.declare entity name takes add) := by
  refine same fun s => ?_
  rcases declare_cases entity name takes add s with ⟨-, hrun⟩ | ⟨f, hrun⟩
  · exact state_ok hrun ▸ h s
  · exact still_at hrun

theorem declareSub (signature name : String) (sub : Sub) :
    Tracks ρ c True (Run.declare .sub signature (·.takesSub name signature) (·.addSub sub))
      (Run.declare .sub signature (·.takesSub name signature) (·.addSub sub)) :=
  declare _ _ _ <| Frame.ofCurrent fun sc =>
    { Scope.Extends.refl sc with subs := List.prefix_append _ _ }

theorem declareData (name : String) (decl : DataDecl) :
    Tracks ρ c True (Run.declare .data name (·.takesData name) (·.addData decl))
      (Run.declare .data name (·.takesData name) (·.addData decl)) :=
  declare _ _ _ <| Frame.ofCurrent fun sc =>
    { Scope.Extends.refl sc with datas := List.suffix_cons _ _ }

theorem declareEnum (name : String) (decl : EnumDecl) :
    Tracks ρ c True (Run.declare .enum name (·.takesEnum name) (·.addEnum decl))
      (Run.declare .enum name (·.takesEnum name) (·.addEnum decl)) :=
  declare _ _ _ <| Frame.ofCurrent fun sc =>
    { Scope.Extends.refl sc with enums := List.suffix_cons _ _ }

theorem declareAlias (name : String) (t : Ty) :
    Tracks ρ c True (Run.declare .alias name (·.takesAlias name) (·.addAlias name t))
      (Run.declare .alias name (·.takesAlias name) (·.addAlias name t)) :=
  declare _ _ _ <| Frame.ofCurrent fun sc =>
    { Scope.Extends.refl sc with aliases := List.suffix_cons _ _ }

theorem declareVariable (name : String) (cell : Cell) :
    Tracks ρ c True (Run.declareVariable name cell) (Run.declareVariable name cell) := by
  refine same fun s => ?_
  rcases declareVariable_cases name cell s with ⟨-, hrun⟩ | ⟨f, hrun⟩
  · rw [state_ok hrun]
    refine (Frame.ofStore True (.newCell s.store cell)).trans (Frame.ofCurrent
      (f := fun sc => { sc with cells := (name, (s.store.newCell cell).1) :: sc.cells })
      (fun sc => ?_) _)
    exact { Scope.Extends.refl sc with cells := List.suffix_cons _ _ }
  · exact still_at hrun

/-- A run between two changes of the state, of which the second undoes the first. -/
theorem between (enter leave : State → State) {p : Prop} (h : Tracks ρ c o x y)
    (hreturns : ∀ s, (enter s).returns = s.returns)
    (hframe : ∀ s t, Frame o (enter s) t → Frame p s (leave t))
    (hgrows : ∀ s t : State, s.Grows t → (leave s).Grows (leave t)) :
    Tracks ρ c p (fun s => leaving leave x (enter s)) (fun s => leaving leave y (enter s)) := by
  intro s hs
  obtain ⟨hin, hsame⟩ := h (enter s) fun ts hts => (hreturns s).trans (hs ts hts)
  have hstate : state (fun s => leaving leave y (enter s)) s = leave (y.state (enter s)) := by
    simp only [state, leaving]
    cases y (enter s) <;> rfl
  rw [hstate]
  refine ⟨hframe s _ hin, ?_⟩
  rcases hsame with hxy | ⟨hc, s₁, hcut, hlater⟩
  · exact .inl (by simp only [leaving, hxy])
  · exact .inr ⟨hc, leave s₁, by simp only [leaving, hcut], hgrows _ _ hlater⟩

theorem inScopeBelow (path : ScopePath) (h : Tracks ρ c o x y) :
    Tracks ρ c False (Run.inScopeBelow path x) (Run.inScopeBelow path y) :=
  h.between (fun s => { s with env := s.env.pushBelow path }) Run.popScope (fun _ => rfl)
    (fun _ _ => Frame.leaveScope) fun _ _ hlater => ⟨hlater.store, hlater.scopes⟩

theorem inScope (h : Tracks ρ c o x y) : Tracks ρ c False (Run.inScope x) (Run.inScope y) :=
  fun s => h.inScopeBelow s.env.current s

theorem inLiveScope (path : ScopePath) (h : Tracks ρ c o x y) :
    Tracks ρ c False (Run.inLiveScope path x) (Run.inLiveScope path y) := by
  intro s hs
  by_cases hlive : s.env.isLive path
  · have heq : ∀ z : Run α, Run.inLiveScope path z s = Run.inScopeBelow path z s :=
      fun z => if_pos hlive
    have hstate : (Run.inLiveScope path y).state s = (Run.inScopeBelow path y).state s := by
      simp only [state, heq]
    rw [hstate, heq, heq]
    exact h.inScopeBelow path s hs
  · have heq : ∀ z : Run α, Run.inLiveScope path z s = Run.fail .noActiveScope s :=
      fun z => if_neg hlive
    exact ⟨still_at (heq y), .inl ((heq x).trans (heq y).symm)⟩

theorem returning (t : Ty) (h : Tracks (ρ.map (t :: ·)) c o x y) :
    Tracks ρ c o (Run.returning t x) (Run.returning t y) := by
  intro s hs
  obtain ⟨hin, hsame⟩ := h { s with returns := t :: s.returns } fun ts hts => by
    obtain ⟨ts', hts', rfl⟩ := Option.map_eq_some_iff.mp hts
    exact congrArg (t :: ·) (hs ts' hts')
  have hstate : (Run.returning t y).state s =
      Run.popReturns (y.state { s with returns := t :: s.returns }) := by
    simp only [state, Run.returning, leaving]
    cases y { s with returns := t :: s.returns } <;> rfl
  rw [hstate]
  refine ⟨hin.leaveReturns, ?_⟩
  rcases hsame with hxy | ⟨hc, s₁, hcut, hlater⟩
  · exact .inl (by simp only [Run.returning, leaving, hxy])
  · exact .inr ⟨hc, Run.popReturns s₁, by simp only [Run.returning, leaving, hcut],
      ⟨hlater.store, hlater.scopes⟩⟩

theorem asCall (frame : CallFrame) (h : Tracks ρ c o x y) :
    Tracks ρ c o (Run.asCall frame x) (Run.asCall frame y) := by
  intro s hs
  cases hpush : s.calls.push frame with
  | error f =>
    have heq : ∀ z : Run α, Run.asCall frame z s =
        .error (.error ((Report.ofFault f).orSpan frame.span)) s := by
      intro z
      simp only [Run.asCall, hpush]
    exact ⟨still_at (heq y), .inl ((heq x).trans (heq y).symm)⟩
  | ok calls =>
    obtain ⟨hin, hsame⟩ := h { s with calls := calls } hs
    have hstate : (Run.asCall frame y).state s =
        Run.popCall (y.state { s with calls := calls }) := by
      simp only [state, Run.asCall, hpush]
      cases y { s with calls := calls } <;> rfl
    rw [hstate]
    refine ⟨hin.leaveCall hpush, ?_⟩
    rcases hsame with hxy | ⟨hc, s₁, hcut, hlater⟩
    · exact .inl (by simp only [Run.asCall, hpush, hxy])
    · exact .inr ⟨hc, Run.popCall s₁, by simp only [Run.asCall, hpush, hcut, Stop.mapReport],
        ⟨hlater.store, hlater.scopes⟩⟩

end Run.Tracks

end BasicScript
