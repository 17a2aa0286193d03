import BasicScript.Proofs.Law.Basic

/-! # Rules of a law

One rule for each way of entering and leaving scopes and calls, one for each
kind of lookup and declaration, and one for each kind of loop.
-/

namespace BasicScript

/-- The site in a scope of a path that has been entered. -/
def Site.enter (p : Site) (path : ScopePath) : Site := { p with stack := path :: p.stack }

/-- The site in a call. -/
def Site.call (p : Site) (frame : CallFrame) : Site :=
  { p with calls := ⟨frame :: p.calls.frames, p.calls.limit⟩ }

/-- A fresh scope declares nothing. -/
theorem State.Obeys.pushBelow {G : Grammar} {s : State} (h : s.Obeys G) (path : ScopePath) :
    State.Obeys { s with env := s.env.pushBelow path } G := by
  intro i sc hsc
  have hsc' : (s.env.scopes.push .blank)[i]? = some sc := hsc
  rw [Array.getElem?_push] at hsc'
  split at hsc'
  · cases hsc'
    exact G.declared_blank ⟨i⟩
  · exact h i sc hsc'

namespace Law

variable {ι : Type} {L : Law ι} {room : Option Nat} {p : Site} {s t : State}

namespace Inv

theorem pushBelow (h : L.Inv room p s) (path : ScopePath) :
    L.Inv room (p.enter (⟨s.env.scopes.size⟩ :: path))
      { s with env := s.env.pushBelow path } where
  active := congrArg (_ :: ·) h.active
  bottom hp := nomatch hp
  declared := h.declared.pushBelow path
  calls := h.calls
  limit := h.limit

theorem popScope {path : ScopePath} (hp : p.stack = [] → L.below = L.instead)
    (h : L.Inv room (p.enter path) s) : L.Inv room p (Run.popScope s) where
  active := congrArg List.tail h.active
  bottom := hp
  declared := h.declared
  calls := h.calls
  limit := h.limit

theorem returns (h : L.Inv room p s) (ts : List Ty) : L.Inv room p { s with returns := ts } :=
  ⟨h.active, h.bottom, h.declared, h.calls, h.limit⟩

theorem popCall {frame : CallFrame} (hlimit : ∀ k ∈ room,
      p.calls.limit = some (p.calls.frames.length + k))
    (h : L.Inv (room.map (· - 1)) (p.call frame) s) : L.Inv room p (Run.popCall s) where
  active := h.active
  bottom := h.bottom
  declared := h.declared
  calls := congrArg CallStack.pop h.calls
  limit := hlimit

/-- Where there is room for no call the next one is refused; else one of the room is taken. -/
theorem call (h : L.Inv room p s) (frame : CallFrame) :
    (∃ n, s.calls.push frame = .error (.stackOverflow n)) ∨
      s.calls.push frame = .ok (p.call frame).calls ∧ room ≠ some 0 ∧
        L.Inv (room.map (· - 1)) (p.call frame) { s with calls := (p.call frame).calls } := by
  have hinv : (∀ k ∈ room.map (· - 1),
      p.calls.limit = some (p.calls.frames.length + 1 + k)) →
        L.Inv (room.map (· - 1)) (p.call frame) { s with calls := (p.call frame).calls } :=
    fun hlimit => ⟨h.active, h.bottom, h.declared, rfl, hlimit⟩
  rw [h.calls]
  unfold CallStack.push
  cases hn : p.calls.limit with
  | none =>
    have hroom : room = none := by
      cases room with
      | none => rfl
      | some k => exact nomatch hn.symm.trans (h.limit k rfl)
    subst hroom
    exact .inr ⟨by simp only [Site.call, hn], by simp, hinv fun _ hk => nomatch hk⟩
  | some n =>
    by_cases hle : n ≤ p.calls.frames.length
    · exact .inl ⟨n, by simp only [hle, if_true]⟩
    · refine .inr ⟨by simp only [hle, if_false, Site.call, hn], ?_, hinv ?_⟩
      · rintro rfl
        have hlimit := hn.symm.trans (h.limit 0 rfl)
        simp only [Option.some.injEq] at hlimit
        omega
      · intro k hk
        obtain ⟨m, rfl, rfl⟩ := Option.map_eq_some_iff.mp hk
        have hlimit := hn.symm.trans (h.limit m rfl)
        simp only [Option.some.injEq] at hlimit
        rw [hn, Option.some.injEq]
        omega

/-- A change of the current scope that keeps what is known of it. -/
theorem modifyCurrent (h : L.Inv room p s) {f : Scope → Scope}
    (hf : ∀ id sc, id = (L.path p).headD ⟨0⟩ → L.Declared id sc → L.Declared id (f sc)) :
    L.Inv room p { s with env := s.env.modifyCurrent f } where
  active := h.active
  bottom := h.bottom
  declared i sc hsc := by
    have hsc' : (s.env.scopes.modify s.env.currentId.index f)[i]? = some sc := hsc
    rw [Array.getElem?_modify] at hsc'
    split at hsc'
    · next hi =>
      obtain ⟨sc₀, hsc₀, rfl⟩ := Option.map_eq_some_iff.mp hsc'
      refine hf ⟨i⟩ sc₀ ?_ (h.declared i sc₀ hsc₀)
      rw [← h.current, ← hi]
      rfl
    · exact h.declared i sc hsc'
  calls := h.calls
  limit := h.limit

theorem twin_currentId (h : L.Inv room p s) :
    (L.twin p s).env.currentId = s.env.currentId := by
  simp only [Environment.currentId, h.twin_current, h.current]

theorem twin_currentScope (h : L.Inv room p s) :
    (L.twin p s).env.currentScope = s.env.currentScope := by
  simp only [Environment.currentScope, h.twin_currentId]
  rfl

theorem twin_modifyCurrent (h : L.Inv room p s) (f : Scope → Scope) :
    { L.twin p s with env := (L.twin p s).env.modifyCurrent f } =
      L.twin p { s with env := s.env.modifyCurrent f } := by
  simp only [Environment.modifyCurrent, h.twin_currentId]
  rfl

end Inv

namespace Holds

variable {α β : Type} {x : ι → Run α} {P : α → Prop}

/-- A run between a change of the state and one that takes it back; the site may change in
between. -/
theorem between {q : Site} {room' : Option Nat} (enter leave : State → State)
    (hx : L.Holds room' q x P) (henter : L.Inv room' q (enter s))
    (htwin : enter (L.twin p s) = L.twin q (enter s))
    (hleave : ∀ t, L.Inv room' q t → L.Inv room p (leave t) ∧ (leave t).store = t.store ∧
      leave (L.twin q t) = L.twin p (leave t)) :
    ∃ outcome, L.Good room p P outcome ∧ ∀ᶠ i in L.along,
      Run.leaving leave (x i) (enter s) = outcome ∧
        Run.leaving leave (x i) (enter (L.twin p s)) = L.twinResult p outcome := by
  obtain ⟨outcome, hgood, hruns⟩ := hx (enter s) henter
  cases outcome with
  | ok a t =>
    obtain ⟨hinv, -, htwin'⟩ := hleave t hgood.1
    refine ⟨.ok a (leave t), ⟨hinv, hgood.2⟩, ?_⟩
    filter_upwards [hruns] with i hi
    simp only [Run.leaving, hi.1, htwin, hi.2, twinResult, htwin', and_self]
  | error e t =>
    obtain ⟨hinv, hstore, htwin'⟩ := hleave t hgood.1
    refine ⟨.error e (leave t), ⟨hinv, hstore ▸ hgood.2⟩, ?_⟩
    filter_upwards [hruns] with i hi
    simp only [Run.leaving, hi.1, htwin, hi.2, twinResult, htwin', and_self]

theorem inScopeBelow (path : ScopePath) (hx : ∀ q, L.Holds room q x P) :
    L.Holds room p (fun i => Run.inScopeBelow path (x i)) P := by
  intro s hs
  exact between (fun s => { s with env := s.env.pushBelow path }) Run.popScope
    (hx _) (hs.pushBelow path) rfl fun t ht => ⟨ht.popScope hs.bottom, rfl, rfl⟩

theorem inScope (hx : ∀ q, L.Holds room q x P) :
    L.Holds room p (fun i => Run.inScope (x i)) P := by
  intro s hs
  obtain ⟨outcome, hgood, hruns⟩ := inScopeBelow (L.path p) hx s hs
  refine ⟨outcome, hgood, ?_⟩
  filter_upwards [hruns] with i hi
  simpa only [Run.inScope, Environment.push, hs.current, hs.twin_current, Run.inScopeBelow] using hi

theorem inLiveScope {path : ScopePath} (hpath : L.Sees p path) (hx : ∀ q, L.Holds room q x P) :
    L.Holds room p (fun i => Run.inLiveScope path (x i)) P := by
  intro s hs
  obtain ⟨hlive, htwin⟩ := hs.live hpath
  obtain ⟨outcome, hgood, hruns⟩ := inScopeBelow path hx s hs
  refine ⟨outcome, hgood, ?_⟩
  filter_upwards [hruns] with i hi
  simpa only [Run.inLiveScope, hlive, htwin, if_true] using hi

theorem returning {ty : Ty} (hx : L.Holds room p x P) :
    L.Holds room p (fun i => Run.returning ty (x i)) P := by
  intro s hs
  exact between (fun s => { s with returns := ty :: s.returns }) Run.popReturns
    hx (hs.returns _) rfl fun t ht => ⟨ht.returns _, rfl, rfl⟩

theorem asCall {frame : CallFrame}
    (hx : room ≠ some 0 → L.Holds (room.map (· - 1)) (p.call frame) x P) :
    L.Holds room p (fun i => Run.asCall frame (x i)) P := by
  intro s hs
  rcases hs.call frame with ⟨n, hfull⟩ | ⟨hpush, hroom, hinv⟩
  · refine ⟨.error (.error ((Report.ofFault (.stackOverflow n)).orSpan frame.span)) s,
      ⟨hs, .inr rfl⟩, .of_forall fun i => ?_⟩
    have hcalls : (L.twin p s).calls.push frame = s.calls.push frame := rfl
    constructor
    · simp only [Run.asCall, hfull]
    · simp only [Run.asCall, hcalls, hfull, twinResult]
  · obtain ⟨outcome, hgood, hruns⟩ := hx hroom _ hinv
    have hcalls : (L.twin p s).calls.push frame = .ok (p.call frame).calls := hpush
    cases outcome with
    | ok a t =>
      refine ⟨.ok a (Run.popCall t), ⟨hgood.1.popCall hs.limit, hgood.2⟩, ?_⟩
      filter_upwards [hruns] with i hi
      have htwin : x i { L.twin p s with calls := (p.call frame).calls } =
          .ok a (L.twin (p.call frame) t) := hi.2
      constructor
      · simp only [Run.asCall, hpush, hi.1]
      · simp only [Run.asCall, hcalls, htwin]
        rfl
    | error e t =>
      have htolerates := hgood.2.mapReport (g := (·.withBacktrace t.calls.frames)) fun e => by
        unfold Report.withBacktrace
        split <;> rfl
      refine ⟨.error (e.mapReport (·.withBacktrace t.calls.frames)) (Run.popCall t),
        ⟨hgood.1.popCall hs.limit, htolerates⟩, ?_⟩
      filter_upwards [hruns] with i hi
      have htwin : x i { L.twin p s with calls := (p.call frame).calls } =
          .error e (L.twin (p.call frame) t) := hi.2
      constructor
      · simp only [Run.asCall, hpush, hi.1]
      · simp only [Run.asCall, hcalls, htwin]
        rfl

theorem lookup {δ : Type} (find : Scope → Option δ) {R : δ → Prop}
    (h : ∀ id ∈ L.path p, ∀ sc a, L.Declared id sc → find sc = some a → R a) :
    L.Holds room p (fun _ => Run.read fun s => s.env.search find) fun found =>
      ∀ a ∈ found, R a := by
  refine read fun s hs => ⟨hs.twin_search find, fun a ha => ?_⟩
  obtain ⟨id, hid, sc, hdeclared, hfind⟩ := hs.search_some ha
  exact h id hid sc a hdeclared hfind

theorem named (name : String) :
    L.Holds room p (fun _ => Run.read fun s => s.env.namedType? name) fun found =>
      ∀ t ∈ found, L.named name t := by
  refine lookup _ fun id _ sc t hsc ht => ?_
  unfold Scope.namedType? at ht
  split at ht
  · next d hd =>
    cases ht
    have hname := eq_of_beq (List.find?_some (p := fun d : DataDecl => d.name == name) hd)
    exact hname ▸ L.ofDataName (hsc.datas d (List.mem_of_find?_eq_some hd)).1
  · split at ht
    · next d hd =>
      cases ht
      have hname := eq_of_beq (List.find?_some (p := fun d : EnumDecl => d.name == name) hd)
      have hmem := List.mem_map_of_mem (f := fun d : EnumDecl => (d.name, Ty.enum d.name))
        (List.mem_of_find?_eq_some hd)
      exact hname ▸ hsc.names _ (List.mem_append_right _ hmem)
    · obtain ⟨l₁, l₂, haliases, -⟩ := List.lookup_eq_some_iff.mp ht
      exact hsc.names (name, t) (List.mem_append_left _ (by simp [haliases]))

/-- A data declaration that is found. -/
theorem data (name : String) :
    L.Holds room p (fun _ => Run.read fun s => s.env.data? name) fun found =>
      ∀ d ∈ found, L.data d ∧ d.name = name ∧ L.Sees p d.scope := by
  refine lookup _ fun id hid sc d hsc hd => ?_
  obtain ⟨hdata, hscope⟩ := hsc.datas d (List.mem_of_find?_eq_some hd)
  refine ⟨hdata, eq_of_beq (List.find?_some (p := fun d : DataDecl => d.name == name) hd), ?_⟩
  intro head hhead
  rwa [hscope head hhead]

theorem overloads (name : String) :
    L.Holds room p (fun _ => Run.read fun s => s.env.overloads name) fun subs =>
      ∀ sub ∈ subs, L.sub sub ∧ sub.name = name ∧ L.Sees p sub.scope := by
  refine read fun s hs => ⟨?_, fun sub hsub => ?_⟩
  · unfold Environment.overloads
    rw [hs.twin_current, hs.current]
    rfl
  · obtain ⟨id, hid, hmem⟩ := List.mem_flatMap.mp hsub
    rw [hs.current] at hid
    obtain ⟨hsub, hname⟩ := List.mem_filter.mp hmem
    obtain ⟨htext, hscope⟩ := (hs.scope_declared id).subs sub hsub
    refine ⟨htext, eq_of_beq hname, fun head hhead => ?_⟩
    rwa [hscope head hhead]

theorem hasSub (name : String) :
    L.Runs room p fun _ => Run.read fun s => s.env.hasSub name := by
  refine read fun s hs => ⟨?_, trivial⟩
  unfold Environment.hasSub
  rw [hs.twin_current, hs.current]
  rfl

theorem current : L.Holds room p (fun _ => Run.read fun s => s.env.current) (· = L.path p) :=
  read fun _ hs => ⟨hs.twin_current.trans hs.current.symm, hs.current⟩

theorem enum (name : String) :
    L.Runs room p fun _ => Run.read fun s => s.env.enum? name :=
  (lookup _ (R := fun _ => True) fun _ _ _ _ _ _ => trivial).runs

theorem cellOf (name : String) : L.Runs room p fun _ => Run.cellOf name :=
  (lookup (·.cell? name) (R := fun _ => True) fun _ _ _ _ _ _ => trivial).bind
    fun _ _ => require rfl fun _ _ => trivial

/-- A declaration of anything but a variable, which the tables of the current scope decide on. -/
theorem declare {entity : Entity} {name : String} (takes : Scope → Bool) {f : Scope → Scope}
    (hf : ∀ id sc, id = (L.path p).headD ⟨0⟩ → L.Declared id sc → L.Declared id (f sc)) :
    L.Runs room p fun _ =>
      Run.declare entity name (fun env => takes env.currentScope) (·.modifyCurrent f) := by
  intro s hs
  by_cases htakes : takes s.env.currentScope = true
  · refine of_result (.ok () { s with env := s.env.modifyCurrent f })
      ⟨hs.modifyCurrent hf, trivial⟩ ?_ ?_
    · simp only [Run.declare, htakes, if_true]
    · simp only [Run.declare, hs.twin_currentScope, htakes, if_true, twinResult,
        hs.twin_modifyCurrent]
  · refine of_result (.error (.error (.ofFault (.alreadyDeclared entity name))) s)
      ⟨hs, .inr rfl⟩ ?_ ?_
    · simp only [Run.declare, htakes]
      rfl
    · simp only [Run.declare, hs.twin_currentScope, htakes]
      rfl

theorem declareVariable (name : String) (c : Cell) :
    L.Runs room p fun _ => Run.declareVariable name c := by
  intro s hs
  have htakes : (L.twin p s).env.takesVariable name = s.env.takesVariable name := by
    simp only [Environment.takesVariable, hs.twin_currentScope]
  by_cases h : s.env.takesVariable name = true
  · have hinv := (hs.showing (s.store.newCell c).2 s.console).modifyCurrent
      (f := fun sc => { sc with cells := (name, (s.store.newCell c).1) :: sc.cells })
      fun _ _ _ hsc => ⟨hsc.subs, hsc.datas, hsc.names⟩
    have htwin := (hs.showing (s.store.newCell c).2 s.console).twin_modifyCurrent
      fun sc => { sc with cells := (name, (s.store.newCell c).1) :: sc.cells }
    refine of_result (.ok (s.store.newCell c).1 _) ⟨hinv, trivial⟩ ?_ ?_
    · simp only [Run.declareVariable, h, if_true]
      rfl
    · simp only [Run.declareVariable, htakes, h, if_true, twinResult, ← htwin]
      rfl
  · refine of_result (.error (.error (.ofFault (.alreadyDeclared .variable name))) s)
      ⟨hs, .inr rfl⟩ ?_ ?_
    · simp only [Run.declareVariable, h]
      rfl
    · simp only [Run.declareVariable, htakes, h]
      rfl

theorem exhausted (h : L.exhausts) : L.Holds room p (fun _ => Run.exhausted) P :=
  fun _ hs => of_result (.error .outOfFuel _) ⟨hs, .inl h⟩ rfl rfl

/-- A fault of control, where a law allows for those. -/
theorem strayed {g : Fault} (h : L.strays ∨ g.isControl = false) (hg : g ≠ .noActiveScope) :
    L.Holds room p (fun _ => Run.fail g) P := by
  intro s hs
  refine of_result (.error (.error (.ofFault g)) s) ⟨hs, ?_⟩ rfl rfl
  exact h.imp_left fun hstrays => ⟨hstrays, hg⟩

/-- A signal or none. -/
theorem ofStep {step : LoopStep} {x : ι → Run Flow} (hx : L.Runs room p x) :
    L.Runs room p fun i =>
      match step with
      | .again => x i
      | .stop => Pure.pure .normal
      | .pass s => Pure.pure (.signal s) := by
  cases step with
  | again => exact hx
  | stop => exact pure trivial
  | pass s => exact pure trivial

theorem loop {step : ι → Run LoopStep} {rounds : ι → Nat} (n : Nat)
    (hstep : L.Runs room p step) (h : L.exhausts)
    (hrounds : ∀ᶠ i in L.along, rounds i = n) :
    L.Runs room p fun i => Run.loop (step i) (rounds i) := by
  have hn : L.Runs room p fun i => Run.loop (step i) n := by
    clear hrounds
    induction n with
    | zero => exact exhausted h
    | succ n ih => exact hstep.bind fun result _ => ofStep ih
  intro s hs
  obtain ⟨outcome, hgood, hruns⟩ := hn s hs
  refine ⟨outcome, hgood, ?_⟩
  filter_upwards [hruns, hrounds] with i hi hin
  rwa [hin]

theorem forValues {step : ι → Value → Run LoopStep} (vs : List Value)
    (hstep : ∀ v, L.Runs room p fun i => step i v) :
    L.Runs room p fun i => Run.forValues (step i) vs := by
  induction vs with
  | nil => exact pure trivial
  | cons v vs ih => exact (hstep v).bind fun result _ => ofStep ih

end Holds

end Law

end BasicScript
