import Mathlib.Data.List.Basic
import BasicScript.Proofs.Frame.Stacks

/-! # Declarations stay put

An expression leaves the tables of all scopes as they are. A statement adds
entries to those of the current scope, under the names that it declares and
only where the scope has none yet; a statement that declares nothing leaves
every name with its meaning.
-/

namespace BasicScript

/-- The names that a statement declares in the scope in which it is executed, and as what. -/
def StmtKind.declares : StmtKind → List (Entity × String)
  | .declare name .. => [(.variable, name)]
  | .declareEach names .. => names.map fun n => (.variable, n.1)
  | .data name _ => [(.data, name)]
  | .sub d => [(.sub, d.name)]
  | .alias name _ => [(.alias, name)]
  | .enum name .. => [(.enum, name)]
  | _ => []

/-- New entries of a table are allowed ones, under keys that were free. -/
def Fresh {α κ : Type} (key : α → κ) (allowed : α → Prop) (old new : List α) : Prop :=
  ∀ a ∈ new, allowed a ∧ ∀ b ∈ old, key b ≠ key a

theorem Fresh.nil {α κ : Type} (key : α → κ) (allowed : α → Prop) (old : List α) :
    Fresh key allowed old [] := fun _ h => nomatch h

theorem Fresh.single {α κ : Type} {key : α → κ} {allowed : α → Prop} {old : List α} {a : α}
    (ha : allowed a) (hfree : ∀ b ∈ old, key b ≠ key a) : Fresh key allowed old [a] := by
  intro a' h
  obtain rfl := List.mem_singleton.mp h
  exact ⟨ha, hfree⟩

/-- What is fresh over a larger table is fresh over a smaller one. -/
theorem Fresh.over {α κ : Type} {key : α → κ} {allowed : α → Prop} {old old' new : List α}
    (h : Fresh key allowed old' new) (hsub : old ⊆ old') : Fresh key allowed old new :=
  fun a ha => ⟨(h a ha).1, fun b hb => (h a ha).2 b (hsub hb)⟩

theorem Fresh.append {α κ : Type} {key : α → κ} {allowed : α → Prop} {old new new' : List α}
    (h : Fresh key allowed old new) (h' : Fresh key allowed old new') :
    Fresh key allowed old (new ++ new') := by
  intro a ha
  rcases List.mem_append.mp ha with ha | ha
  · exact h a ha
  · exact h' a ha

/-- The tables of one scope are those of another with new entries under some names, none of them in
the place of an old one. -/
structure Scope.Gains (names : List (Entity × String)) (s s' : Scope) : Prop where
  cells : ∃ new, s'.cells = new ++ s.cells ∧
    Fresh Prod.fst (fun p => (.variable, p.1) ∈ names) s.cells new
  subs : ∃ new, s'.subs = s.subs ++ new ∧
    Fresh (fun q => (q.name, q.signature)) (fun q => (.sub, q.name) ∈ names) s.subs new
  datas : ∃ new, s'.datas = new ++ s.datas ∧
    Fresh DataDecl.name (fun d => (.data, d.name) ∈ names) s.datas new
  enums : ∃ new, s'.enums = new ++ s.enums ∧
    Fresh EnumDecl.name (fun d => (.enum, d.name) ∈ names) s.enums new
  aliases : ∃ new, s'.aliases = new ++ s.aliases ∧
    Fresh Prod.fst (fun p => (.alias, p.1) ∈ names) s.aliases new

namespace Scope.Gains

variable {names : List (Entity × String)} {a b c : Scope}

theorem refl (names : List (Entity × String)) (s : Scope) : s.Gains names s where
  cells := ⟨[], rfl, .nil _ _ _⟩
  subs := ⟨[], (List.append_nil _).symm, .nil _ _ _⟩
  datas := ⟨[], rfl, .nil _ _ _⟩
  enums := ⟨[], rfl, .nil _ _ _⟩
  aliases := ⟨[], rfl, .nil _ _ _⟩

/-- Entries in front of a table, in two steps. -/
private theorem front {α κ : Type} {key : α → κ} {allowed : α → Prop} {xs ys zs : List α}
    (h : ∃ new, ys = new ++ xs ∧ Fresh key allowed xs new)
    (h' : ∃ new, zs = new ++ ys ∧ Fresh key allowed ys new) :
    ∃ new, zs = new ++ xs ∧ Fresh key allowed xs new := by
  obtain ⟨new, rfl, hnew⟩ := h
  obtain ⟨new', rfl, hnew'⟩ := h'
  refine ⟨new' ++ new, (List.append_assoc _ _ _).symm, Fresh.append ?_ hnew⟩
  exact hnew'.over (List.subset_append_right _ _)

theorem trans (h : a.Gains names b) (h' : b.Gains names c) : a.Gains names c where
  cells := front h.cells h'.cells
  subs := by
    obtain ⟨new, hb, hnew⟩ := h.subs
    obtain ⟨new', hc, hnew'⟩ := h'.subs
    rw [hb] at hc hnew'
    refine ⟨new ++ new', hc.trans (List.append_assoc _ _ _), hnew.append ?_⟩
    exact hnew'.over (List.subset_append_left _ _)
  datas := front h.datas h'.datas
  enums := front h.enums h'.enums
  aliases := front h.aliases h'.aliases

/-- Where no name is allowed, nothing is new. -/
theorem eq_of_nil (h : a.Gains [] b) : b = a := by
  have hnone : ∀ {α κ : Type} {key : α → κ} {entity : Entity} {name : α → String}
      {old new : List α}, Fresh key (fun x => (entity, name x) ∈ []) old new → new = [] := by
    intro α κ key entity name old new hnew
    exact List.eq_nil_iff_forall_not_mem.mpr fun x hx => List.not_mem_nil (hnew x hx).1
  obtain ⟨_, hcells, h₁⟩ := h.cells
  obtain ⟨_, hsubs, h₂⟩ := h.subs
  obtain ⟨_, hdatas, h₃⟩ := h.datas
  obtain ⟨_, henums, h₄⟩ := h.enums
  obtain ⟨_, haliases, h₅⟩ := h.aliases
  obtain ⟨cells, subs, datas, enums, aliases⟩ := b
  simp only [hnone h₁, hnone h₂, hnone h₃, hnone h₄, hnone h₅, List.nil_append,
    List.append_nil] at hcells hsubs hdatas henums haliases
  simp only [hcells, hsubs, hdatas, henums, haliases]

end Scope.Gains

/-- What is declared between two states: entries of the current scope under some names. The tables
of all other scopes are the same, and so are the active paths, with the parent of each scope. -/
structure State.DeclaresOnly (names : List (Entity × String)) (s t : State) : Prop where
  size : s.env.scopes.size ≤ t.env.scopes.size
  active : t.env.active = s.env.active
  elsewhere : ∀ i < s.env.scopes.size, i ≠ s.env.currentId.index →
    t.env.scopes[i]? = s.env.scopes[i]?
  here : ∀ sc, s.env.scopes[s.env.currentId.index]? = some sc →
    ∃ sc', t.env.scopes[s.env.currentId.index]? = some sc' ∧ sc.Gains names sc'

namespace State.DeclaresOnly

variable {names : List (Entity × String)} {s t u : State}

theorem ofFrame (h : Frame False s t) : s.DeclaresOnly names t where
  size := h.grows.scopes.size_le
  active := h.active
  elsewhere i hi _ := h.tables i hi False.elim
  here sc hsc := by
    have hlt := (Array.getElem?_eq_some_iff.mp hsc).1
    exact ⟨sc, (h.tables _ hlt False.elim).trans hsc, .refl names sc⟩

theorem currentId (h : s.DeclaresOnly names t) : t.env.currentId = s.env.currentId := by
  simp only [Environment.currentId, Environment.current, h.active]

theorem trans (h : s.DeclaresOnly names t) (h' : t.DeclaresOnly names u) :
    s.DeclaresOnly names u where
  size := Nat.le_trans h.size h'.size
  active := h'.active.trans h.active
  elsewhere i hi hne := by
    have hne' : i ≠ t.env.currentId.index := by rwa [h.currentId]
    rw [h'.elsewhere i (Nat.lt_of_lt_of_le hi h.size) hne', h.elsewhere i hi hne]
  here sc hsc := by
    obtain ⟨sc₁, hsc₁, hgains⟩ := h.here sc hsc
    obtain ⟨sc₂, hsc₂, hgains'⟩ := h'.here sc₁ (h.currentId ▸ hsc₁)
    exact ⟨sc₂, h.currentId ▸ hsc₂, hgains.trans hgains'⟩

/-- The tables of the current scope are changed. -/
theorem ofCurrent {f : Scope → Scope}
    (h : s.env.currentScope.Gains names (f s.env.currentScope)) :
    s.DeclaresOnly names { s with env := s.env.modifyCurrent f } where
  size := by simp [Environment.modifyCurrent]
  active := rfl
  elsewhere i _ hne := by
    show (s.env.scopes.modify s.env.currentId.index f)[i]? = _
    rw [Array.getElem?_modify, if_neg (Ne.symm hne)]
  here sc hsc := by
    have hcurrent : s.env.currentScope = sc := by
      simp [Environment.currentScope, Environment.scope, hsc]
    refine ⟨f sc, ?_, hcurrent ▸ h⟩
    show (s.env.scopes.modify s.env.currentId.index f)[_]? = _
    rw [Array.getElem?_modify, if_pos rfl, hsc]
    rfl

end State.DeclaresOnly

namespace Run

variable {α β : Type} {names : List (Entity × String)} {x y : Run α}

/-- However the run ends, it has declared nothing but some of the names. -/
def DeclaresOnly (names : List (Entity × String)) (x : Run α) : Prop :=
  ∀ s : State, s.DeclaresOnly names (x.state s)

namespace DeclaresOnly

theorem ofTracks {c : Prop} (h : Tracks none c False x y) : y.DeclaresOnly names :=
  fun s => .ofFrame (h.frame s)

theorem pure (a : α) : (Pure.pure a : Run α).DeclaresOnly names := fun s => .ofFrame (.refl False s)

theorem fail (f : Fault) : (Run.fail f : Run α).DeclaresOnly names :=
  fun s => .ofFrame (.refl False s)

theorem bind {f : α → Run β} (hx : x.DeclaresOnly names) (hf : ∀ a, (f a).DeclaresOnly names) :
    (x >>= f).DeclaresOnly names := by
  intro s
  have hstate := hx s
  cases h : x s with
  | ok a t =>
    rw [state_ok h] at hstate
    rw [state_bind_ok h]
    exact hstate.trans (hf a t)
  | error e t =>
    rw [state_error h] at hstate
    rw [state_error (bind_error h f)]
    exact hstate

theorem ite {p : Prop} [Decidable p] (hx : x.DeclaresOnly names) (hy : y.DeclaresOnly names) :
    (if p then x else y).DeclaresOnly names := by
  split
  · exact hx
  · exact hy

theorem traced (what : String) (span : Span) (h : x.DeclaresOnly names) :
    (Run.traced what span x).DeclaresOnly names := by
  intro s
  have hstate : (Run.traced what span x).state s = x.state s := by
    simp only [Run.traced, Run.mapReport, state]
    cases x s <;> rfl
  rw [hstate]
  exact h s

/-- A declaration is refused, or the current scope gains what it adds. -/
theorem declare (entity : Entity) (name : String) {takes : Environment → Bool}
    {add : Environment → Scope → Scope}
    (h : ∀ env, takes env = true → env.currentScope.Gains names (add env env.currentScope)) :
    (Run.declare entity name takes fun env => env.modifyCurrent (add env)).DeclaresOnly names := by
  intro s
  rcases declare_cases entity name takes (fun env => env.modifyCurrent (add env)) s with
    ⟨htakes, hrun⟩ | ⟨f, hrun⟩
  · rw [state_ok hrun]
    exact .ofCurrent (h s.env htakes)
  · rw [state_error hrun]
    exact .ofFrame (.refl False s)

theorem declareVariable {name : String} (hname : (.variable, name) ∈ names) (cell : Cell) :
    (Run.declareVariable name cell).DeclaresOnly names := by
  intro s
  rcases declareVariable_cases name cell s with ⟨htakes, hrun⟩ | ⟨f, hrun⟩
  · rw [state_ok hrun]
    have hstored : s.DeclaresOnly names { s with store := (s.store.newCell cell).2 } :=
      .ofFrame (.ofStore False (.newCell s.store cell))
    refine hstored.trans (.ofCurrent (f := fun sc =>
      { sc with cells := (name, (s.store.newCell cell).1) :: sc.cells }) ?_)
    refine { Scope.Gains.refl names _ with cells := ⟨[_], rfl, .single hname fun p hp heq => ?_⟩ }
    have hnone : s.env.currentScope.cells.lookup name = none := by
      simpa [Environment.takesVariable, Scope.cell?] using htakes
    have hne := List.lookup_eq_none_iff.mp hnone p hp
    simp [heq] at hne
  · rw [state_error hrun]
    exact .ofFrame (.refl False s)

end DeclaresOnly

end Run

namespace Evaluator.Precedes

open Run.Tracks (read require)

variable {names : List (Entity × String)} {c : Prop} {r : Evaluator}

theorem bind_declares {name : String} (hname : (.variable, name) ∈ names) (t : Ty) (v : Value)
    (constant : Bool) : (Evaluator.bind name t v constant).DeclaresOnly names :=
  (Run.DeclaresOnly.ofTracks (c := False) (bindingType v t)).bind fun t =>
    (Run.DeclaresOnly.ofTracks (c := False) (Run.Tracks.conform t v)).bind fun _ =>
      (Run.DeclaresOnly.declareVariable hname _).bind fun _ => .pure ()

theorem bindEach_declares (h : r.Precedes none c r) (constant : Bool)
    (bound : List (String × TypeExpr)) (hbound : ∀ n ∈ bound, (.variable, n.1) ∈ names)
    (vs : List Value) : (r.bindEach constant bound vs).DeclaresOnly names := by
  induction bound generalizing vs with
  | nil => exact .pure ()
  | cons n bound ih =>
    rw [List.forall_mem_cons] at hbound
    cases vs with
    | nil => exact .pure ()
    | cons v vs =>
      refine (Run.DeclaresOnly.ofTracks (h.resolveType n.2)).bind fun t => ?_
      exact (bind_declares hbound.1 t v constant).bind fun _ => ih hbound.2 vs

theorem bindAll_declares (h : r.Precedes none c r) (bound : List (String × TypeExpr))
    (vs : List Value) (constant : Bool) :
    (r.bindAll bound vs constant).DeclaresOnly (bound.map fun n => (.variable, n.1)) := by
  have heach := h.bindEach_declares constant bound
    (fun n hn => List.mem_map_of_mem (f := fun n => (Entity.variable, n.1)) hn) vs
  exact .ite ((Run.DeclaresOnly.fail _).bind fun _ => heach) heach

theorem declareVariable_declares (h : r.Precedes none c r) (name : String) (written : TypeExpr)
    (init : Expr) (constant : Bool) :
    (r.declareVariable name written init constant).DeclaresOnly [(.variable, name)] := by
  have hbind : ∀ t v, (Evaluator.bind name t v constant).DeclaresOnly [(.variable, name)] :=
    fun t v => bind_declares (List.mem_singleton.mpr rfl) t v constant
  refine (Run.DeclaresOnly.ofTracks (h.resolveType written)).bind fun t => ?_
  refine (Run.DeclaresOnly.ofTracks (h.eval _ init)).bind fun v => ?_
  refine .ite (.ite ?_ ?_) (hbind t v)
  · exact .ofTracks (c := False) ((Run.Tracks.fail _).atSpan _)
  · exact (Run.DeclaresOnly.ofTracks (h.default t)).bind fun w => hbind t w

theorem declareSub_declares (h : r.Precedes none c r) (d : SubDef) :
    (r.declareSub d).DeclaresOnly [(.sub, d.name)] := by
  refine (Run.DeclaresOnly.ofTracks (h.parameters d.params)).bind fun params => ?_
  refine (Run.DeclaresOnly.ofTracks (h.returnType d.returns)).bind fun returns => ?_
  have hadd : ∀ scope, (Run.declare .sub (signatureText d.name (params.map (·.type)))
      (·.takesSub d.name (signatureText d.name (params.map (·.type))))
      (·.addSub ⟨d.name, params, returns, d.body, signatureText d.name (params.map (·.type)),
        scope, d.builtin⟩)).DeclaresOnly [(.sub, d.name)] := by
    refine fun scope => .declare _ _ fun env htakes => ?_
    refine { Scope.Gains.refl _ _ with
      subs := ⟨[_], rfl, .single (List.mem_singleton.mpr rfl) fun q hq heq => ?_⟩ }
    obtain ⟨hname, hsignature⟩ := Prod.mk.inj heq
    have hnone : ∀ q ∈ env.currentScope.overloads d.name,
        q.signature ≠ signatureText d.name (params.map (·.type)) := by
      simpa [Environment.takesSub] using htakes
    exact hnone q (List.mem_filter.mpr ⟨hq, by simpa using hname⟩) hsignature
  refine .ite ((Run.DeclaresOnly.ofTracks (h.requireNative _ _)).bind fun _ => ?_) ?_
  · exact (Run.DeclaresOnly.ofTracks (c := c) (read _)).bind hadd
  · exact (Run.DeclaresOnly.ofTracks (c := c) (read _)).bind hadd

theorem declareData_declares (h : r.Precedes none c r) (name : String)
    (fields : List FieldDef) : (r.declareData name fields).DeclaresOnly [(.data, name)] := by
  have hfields : Run.Tracks none c False _ _ := Run.Tracks.mapM (fun f : FieldDef =>
    (h.resolveType f.type).bind fun t =>
      Run.Tracks.pure (⟨f.name, t, f.constant, f.default⟩ : Field)) fields
  refine (Run.DeclaresOnly.ofTracks hfields).bind fun known => ?_
  refine (Run.DeclaresOnly.ofTracks (c := c) (read _)).bind fun scope => ?_
  refine .declare _ _ fun env htakes => ?_
  refine { Scope.Gains.refl _ _ with
    datas := ⟨[_], rfl, .single (List.mem_singleton.mpr rfl) fun d hd heq => ?_⟩ }
  have hnone : ∀ d ∈ env.currentScope.datas, d.name ≠ name := by
    simpa [Environment.takesData, Scope.data?] using htakes
  exact hnone d hd heq

theorem declareAlias_declares (h : r.Precedes none c r) (name : String) (written : TypeExpr) :
    (r.declareAlias name written).DeclaresOnly [(.alias, name)] := by
  refine (Run.DeclaresOnly.ofTracks (h.resolveType written)).bind fun t => ?_
  refine .declare _ _ fun env htakes => ?_
  refine { Scope.Gains.refl _ _ with
    aliases := ⟨[_], rfl, .single (List.mem_singleton.mpr rfl) fun p hp heq => ?_⟩ }
  have hnone : env.currentScope.aliases.lookup name = none := by
    simpa [Environment.takesAlias] using htakes
  have hne := List.lookup_eq_none_iff.mp hnone p hp
  simp [heq] at hne

theorem declareEnum_declares (h : r.Precedes none c r) (name : String) (kind : EnumKind)
    (entries : List EntryDef) : (r.declareEnum name kind entries).DeclaresOnly [(.enum, name)] := by
  refine (Run.DeclaresOnly.ofTracks (h.enumEntries kind entries)).bind fun built => ?_
  refine .declare _ _ fun env htakes => ?_
  refine { Scope.Gains.refl _ _ with
    enums := ⟨[_], rfl, .single (List.mem_singleton.mpr rfl) fun d hd heq => ?_⟩ }
  have hnone : ∀ d ∈ env.currentScope.enums, d.name ≠ name := by
    simpa [Environment.takesEnum, Scope.enum?] using htakes
  exact hnone d hd heq

/-- A statement declares the names that its form says, and no others. -/
theorem stmt_declares (h : r.Precedes none c r) (stmt : Stmt) :
    (r.stmt stmt).DeclaresOnly stmt.kind.declares := by
  refine Run.DeclaresOnly.traced _ _ ?_
  cases stmt.kind with
  | none => exact .pure _
  | expression e => exact (Run.DeclaresOnly.ofTracks (h.eval none e)).bind fun _ => .pure _
  | declare name type init constant =>
    exact (h.declareVariable_declares name type init constant).bind fun _ => .pure _
  | declareEach bound init constant =>
    refine (Run.DeclaresOnly.ofTracks (h.eval none init)).bind fun v => ?_
    refine (Run.DeclaresOnly.ofTracks (c := c) (Run.Tracks.elementsOf v)).bind fun vs => ?_
    exact (h.bindAll_declares bound vs constant).bind fun _ => .pure _
  | block body => exact .ofTracks (h.scopedBlock body)
  | doBlock label body =>
    exact (Run.DeclaresOnly.ofTracks (h.scopedBlock body)).bind fun _ => .pure _
  | ifElse bs otherwise => exact .ofTracks (h.branches otherwise bs)
  | switch label subject cs =>
    refine (Run.DeclaresOnly.ofTracks (h.eval none subject)).bind fun v => ?_
    exact .ofTracks (h.cases label v cs)
  | whileLoop label test body => exact .ofTracks ((h.whileStep label test body).loop h.rounds)
  | untilLoop label test body => exact .ofTracks ((h.untilStep label test body).loop h.rounds)
  | forCount label name type start limit step body =>
    exact .ofTracks (h.countLoop label name type start limit step body)
  | forEach label name type iterable body =>
    refine (Run.DeclaresOnly.ofTracks (h.resolveType type)).bind fun t => ?_
    refine (Run.DeclaresOnly.ofTracks (h.iterationValues iterable)).bind fun vs => ?_
    exact .ofTracks (Run.Tracks.forValues (h.eachStep label name t body) vs)
  | forEachOf label bound iterable body =>
    refine (Run.DeclaresOnly.ofTracks (h.iterationValues iterable)).bind fun vs => ?_
    exact .ofTracks (Run.Tracks.forValues (h.eachOfStep label bound body) vs)
  | data name fields => exact (h.declareData_declares name fields).bind fun _ => .pure _
  | sub d => exact (h.declareSub_declares d).bind fun _ => .pure _
  | breakTo label => exact .pure _
  | nextTo label => exact .pure _
  | leave => exact .pure _
  | yield value =>
    refine (Run.DeclaresOnly.ofTracks (c := c) (read _)).bind fun expected => ?_
    exact (Run.DeclaresOnly.ofTracks (h.eval _ value)).bind fun _ => .pure _
  | «alias» name type => exact (h.declareAlias_declares name type).bind fun _ => .pure _
  | enum name kind entries =>
    exact (h.declareEnum_declares name kind entries).bind fun _ => .pure _

end Evaluator.Precedes

/-- Every name means the same. -/
structure State.SameNames (s t : State) : Prop where
  cell : ∀ name, t.env.cell? name = s.env.cell? name
  overloads : ∀ name, t.env.overloads name = s.env.overloads name
  data : ∀ name, t.env.data? name = s.env.data? name
  enum : ∀ name, t.env.enum? name = s.env.enum? name
  type : ∀ name, t.env.namedType? name = s.env.namedType? name

/-- Where nothing is declared, every name keeps its meaning: the scopes in reach are the same. -/
theorem State.DeclaresOnly.sameNames {s t : State} (h : s.DeclaresOnly [] t)
    (hexist : ∀ id ∈ s.env.current, id.index < s.env.scopes.size) : s.SameNames t := by
  have hcurrent : t.env.current = s.env.current := by
    simp only [Environment.current, h.active]
  have hscope : ∀ id ∈ s.env.current, t.env.scope id = s.env.scope id := by
    intro id hid
    suffices hsame : t.env.scopes[id.index]? = s.env.scopes[id.index]? by
      simp only [Environment.scope, hsame]
    by_cases hne : id.index = s.env.currentId.index
    · obtain ⟨sc, hsc⟩ : ∃ sc, s.env.scopes[id.index]? = some sc :=
        ⟨_, Array.getElem?_eq_getElem (hexist id hid)⟩
      rw [hne] at hsc ⊢
      obtain ⟨sc', hsc', hgains⟩ := h.here sc hsc
      rw [hsc', hsc, hgains.eq_of_nil]
    · exact h.elsewhere id.index (hexist id hid) hne
  have hsearch : ∀ {δ : Type} (find : Scope → Option δ),
      t.env.search find = s.env.search find := by
    intro δ find
    unfold Environment.search
    rw [hcurrent, ← List.head?_filterMap, ← List.head?_filterMap]
    exact congrArg List.head? (List.filterMap_congr fun id hid => by rw [hscope id hid])
  refine ⟨fun name => hsearch _, fun name => ?_, fun name => hsearch _, fun name => hsearch _,
    fun name => hsearch _⟩
  unfold Environment.overloads
  rw [hcurrent]
  exact List.flatMap_congr fun id hid => by rw [hscope id hid]

end BasicScript
