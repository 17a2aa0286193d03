import BasicScript.Interpreter
import BasicScript.Proofs.Recast.Syntax

/-! # States with other spans

Programs leave spans in a state: in the defaults of data declarations and of
parameters, in the bodies of subs, in active calls and in reports. What a
state is asked for by name, handle or place is the same with other spans.
-/

namespace BasicScript

section Parts

variable (f : Span → Span)

/-- A field with other spans. -/
def Field.mapSpans (d : Field) : Field := { d with default := d.default.map (Expr.mapSpans f) }

/-- A data declaration with other spans. -/
def DataDecl.mapSpans (d : DataDecl) : DataDecl :=
  { d with fields := d.fields.map (Field.mapSpans f) }

/-- A value with other spans. -/
def Value.mapSpans : Value → Value
  | .data d cells => .data (d.mapSpans f) cells
  | .entry enum name ordinal v => .entry enum name ordinal v.mapSpans
  | v => v

/-- An enum declaration with other spans. -/
def EnumDecl.mapSpans (d : EnumDecl) : EnumDecl :=
  { d with entries := d.entries.map fun e => (e.1, e.2.mapSpans f) }

/-- A cell with other spans. -/
def Cell.mapSpans (c : Cell) : Cell := { c with value := c.value.mapSpans f }

/-- An array with other spans. -/
def ArrayBlock.mapSpans (b : ArrayBlock) : ArrayBlock :=
  { b with values := b.values.map (Value.mapSpans f) }

/-- Storage with other spans. -/
def Store.mapSpans (σ : Store) : Store :=
  ⟨σ.cells.map (Cell.mapSpans f), σ.arrays.map (ArrayBlock.mapSpans f)⟩

/-- A parameter with other spans. -/
def Parameter.mapSpans (p : Parameter) : Parameter :=
  { p with default := p.default.map (Expr.mapSpans f) }

/-- An overload with other spans. -/
def Sub.mapSpans (s : Sub) : Sub :=
  { s with params := s.params.map (Parameter.mapSpans f), body := s.body.map (Stmt.mapSpans f) }

/-- A scope with other spans. -/
def Scope.mapSpans (s : Scope) : Scope :=
  { s with
    subs := s.subs.map (Sub.mapSpans f)
    datas := s.datas.map (DataDecl.mapSpans f)
    enums := s.enums.map (EnumDecl.mapSpans f) }

/-- Scopes with other spans. -/
def Environment.mapSpans (env : Environment) : Environment :=
  { env with scopes := env.scopes.map (Scope.mapSpans f) }

/-- A call with another span. -/
def CallFrame.mapSpans (c : CallFrame) : CallFrame := ⟨c.signature, f c.span⟩

/-- A trace entry with another span. -/
def TraceEntry.mapSpans (t : TraceEntry) : TraceEntry := ⟨t.what, f t.span⟩

/-- A report with other spans. -/
def Report.mapSpans (e : Report) : Report :=
  ⟨e.fault, e.span.map f, e.trace.map (TraceEntry.mapSpans f),
    e.backtrace.map fun frames => frames.map (CallFrame.mapSpans f)⟩

/-- A state with other spans. -/
def State.mapSpans (s : State) : State :=
  { s with
    store := s.store.mapSpans f
    env := s.env.mapSpans f
    calls := ⟨s.calls.frames.map (CallFrame.mapSpans f), s.calls.limit⟩ }

/-- A signal with other spans. -/
def Signal.mapSpans : Signal → Signal
  | .yield v => .yield (v.mapSpans f)
  | s => s

/-- The end of a statement with other spans. -/
def Flow.mapSpans : Flow → Flow
  | .normal => .normal
  | .signal s => .signal (s.mapSpans f)

/-- A step of a loop with other spans. -/
def LoopStep.mapSpans : LoopStep → LoopStep
  | .pass s => .pass (s.mapSpans f)
  | step => step

/-- A step of a switch with other spans. -/
def CaseStep.mapSpans : CaseStep → CaseStep
  | .pass s => .pass (s.mapSpans f)
  | step => step

/-- An argument of a call with other spans. -/
def Pending.mapSpans : Pending → Pending
  | .ready v => .ready (v.mapSpans f)
  | .deferred e => .deferred (e.mapSpans f)

/-- The outcome of a program with other spans. -/
def Outcome.mapSpans : Outcome → Outcome
  | .completed => .completed
  | .yielded v => .yielded (v.mapSpans f)

end Parts

variable {f : Span → Span}

namespace Value

@[simp] theorem isMissing_mapSpans (v : Value) : (v.mapSpans f).isMissing = v.isMissing := by
  cases v <;> rfl

@[simp] theorem integral?_mapSpans (v : Value) : (v.mapSpans f).integral? = v.integral? := by
  cases v <;> rfl

@[simp] theorem ofLiteral_mapSpans (l : Literal) : (ofLiteral l).mapSpans f = ofLiteral l := by
  cases l <;> rfl

end Value

@[simp] theorem DataDecl.fieldIndex?_mapSpans (d : DataDecl) (name : String) :
    (d.mapSpans f).fieldIndex? name = d.fieldIndex? name := by
  simp only [DataDecl.fieldIndex?, DataDecl.mapSpans, List.findIdx?_map]
  rfl

namespace EnumDecl

theorem entryValues_mapSpans (enum : String) (ordinal : Nat) (entries : List (String × Value)) :
    entryValues enum ordinal (entries.map fun e => (e.1, e.2.mapSpans f)) =
      (entryValues enum ordinal entries).map (Value.mapSpans f) := by
  induction entries generalizing ordinal with
  | nil => rfl
  | cons e rest ih => simp only [List.map_cons, entryValues, ih, Value.mapSpans]

@[simp] theorem values_mapSpans (d : EnumDecl) :
    (d.mapSpans f).values = d.values.map (Value.mapSpans f) :=
  entryValues_mapSpans d.name 0 d.entries

@[simp] theorem find?_mapSpans (d : EnumDecl) (name : String) :
    (d.mapSpans f).find? name = (d.find? name).map (Value.mapSpans f) := by
  simp only [find?, values_mapSpans, List.find?_map]
  congr 2
  funext v
  cases v <;> rfl

end EnumDecl

namespace Store

variable (σ : Store)

@[simp] theorem cell_mapSpans (id : CellId) : (σ.mapSpans f).cell id = (σ.cell id).mapSpans f := by
  simp only [cell, mapSpans, Array.getElem?_map]
  cases σ.cells[id.index]? <;> rfl

@[simp] theorem block_mapSpans (id : ArrayId) :
    (σ.mapSpans f).block id = (σ.block id).mapSpans f := by
  simp only [block, mapSpans, Array.getElem?_map]
  cases σ.arrays[id.index]? with
  | none => simp [ArrayBlock.mapSpans]
  | some b => rfl

@[simp] theorem read_mapSpans (id : CellId) : (σ.mapSpans f).read id = (σ.read id).mapSpans f := by
  simp only [read, cell_mapSpans]
  rfl

@[simp] theorem elements_mapSpans (id : ArrayId) :
    (σ.mapSpans f).elements id = (σ.elements id).map (Value.mapSpans f) := by
  simp only [elements, block_mapSpans, ArrayBlock.mapSpans, Array.toList_map]

@[simp] theorem depth_mapSpans : (σ.mapSpans f).depth = σ.depth := by
  simp only [depth, mapSpans, Array.size_map]

theorem newCell_mapSpans (c : Cell) : (σ.mapSpans f).newCell (c.mapSpans f) =
    ((σ.newCell c).1, (σ.newCell c).2.mapSpans f) := by
  simp only [newCell, mapSpans, Array.size_map, Array.map_push]

theorem newArray_mapSpans (element : Ty) (vs : List Value) :
    (σ.mapSpans f).newArray element (vs.map (Value.mapSpans f)) =
      ((σ.newArray element vs).1, (σ.newArray element vs).2.mapSpans f) := by
  simp only [newArray, mapSpans, Array.size_map, Array.map_push, ArrayBlock.mapSpans,
    List.map_toArray]

/-- Changing an element and mapping all elements commute, where the changes correspond. -/
theorem modify_map {α β : Type} {g : α → β} {h : α → α} {k : β → β}
    (hk : ∀ a, g (h a) = k (g a)) (xs : Array α) (i : Nat) :
    (xs.map g).modify i k = (xs.modify i h).map g := by
  apply Array.ext_getElem?
  intro j
  simp only [Array.getElem?_modify, Array.getElem?_map]
  split
  · simp [Function.comp_def, hk]
  · rfl

theorem write_mapSpans (id : CellId) (v : Value) :
    (σ.mapSpans f).write id (v.mapSpans f) = (σ.write id v).mapSpans f := by
  have hcells := modify_map (g := Cell.mapSpans f) (h := fun c => { c with value := v })
    (k := fun c => { c with value := v.mapSpans f }) (fun _ => rfl) σ.cells id.index
  exact congrArg (Store.mk · _) hcells

theorem setElement_mapSpans (id : ArrayId) (i : Nat) (v : Value) :
    (σ.mapSpans f).setElement id i (v.mapSpans f) = (σ.setElement id i v).mapSpans f := by
  have harrays := modify_map (g := ArrayBlock.mapSpans f)
    (h := fun b => { b with values := b.values.setIfInBounds i v })
    (k := fun b => { b with values := b.values.setIfInBounds i (v.mapSpans f) })
    (fun b => by simp only [ArrayBlock.mapSpans, Array.map_setIfInBounds]) σ.arrays id.index
  exact congrArg (Store.mk _) harrays

end Store

namespace Sub

@[simp] theorem isVararg_mapSpans (p : Parameter) : (p.mapSpans f).isVararg = p.isVararg := rfl

@[simp] theorem vararg?_mapSpans (s : Sub) :
    (s.mapSpans f).vararg? = s.vararg?.map (Parameter.mapSpans f) := by
  simp only [vararg?, mapSpans, List.getLast?_map]
  cases s.params.getLast? with
  | none => rfl
  | some p =>
    cases h : p.isVararg with
    | true =>
      rw [Option.map_some, Option.filter_some_pos h]
      exact Option.filter_some_pos h
    | false =>
      rw [Option.map_some, Option.filter_some_neg h]
      exact Option.filter_some_neg h

@[simp] theorem fixed_mapSpans (s : Sub) :
    (s.mapSpans f).fixed = s.fixed.map (Parameter.mapSpans f) := by
  simp only [fixed, vararg?_mapSpans, Option.isSome_map]
  split
  · exact (List.map_dropLast).symm
  · rfl

@[simp] theorem fits_mapSpans (s : Sub) (count : Nat) :
    (s.mapSpans f).fits count = s.fits count := by
  simp only [fits, fixed_mapSpans, vararg?_mapSpans, Option.isSome_map, List.length_map,
    ← List.map_drop, List.all_map]
  congr 2
  funext p
  exact Option.isSome_map

theorem byArity_mapSpans (subs : List Sub) :
    byArity (subs.map (Sub.mapSpans f)) = (byArity subs).map (Sub.mapSpans f) := by
  have hinsert : ∀ (s : Sub) (rest : List Sub), insertByArity (s.mapSpans f)
      (rest.map (Sub.mapSpans f)) = (insertByArity s rest).map (Sub.mapSpans f) := by
    intro s rest
    induction rest with
    | nil => rfl
    | cons other rest ih =>
      have hlength : ∀ q : Sub, (q.mapSpans f).params.length = q.params.length :=
        fun q => List.length_map _
      simp only [List.map_cons, insertByArity, ih, hlength]
      split <;> rfl
  induction subs with
  | nil => rfl
  | cons s rest ih =>
    show insertByArity _ (byArity _) = _
    rw [ih, hinsert]
    rfl

end Sub

namespace Scope

variable (s : Scope)

@[simp] theorem overloads_mapSpans (name : String) :
    (s.mapSpans f).overloads name = (s.overloads name).map (Sub.mapSpans f) := by
  simp only [overloads, mapSpans, List.filter_map]
  rfl

@[simp] theorem data?_mapSpans (name : String) :
    (s.mapSpans f).data? name = (s.data? name).map (DataDecl.mapSpans f) := by
  simp only [data?, mapSpans, List.find?_map]
  rfl

@[simp] theorem enum?_mapSpans (name : String) :
    (s.mapSpans f).enum? name = (s.enum? name).map (EnumDecl.mapSpans f) := by
  simp only [enum?, mapSpans, List.find?_map]
  rfl

@[simp] theorem namedType?_mapSpans (name : String) :
    (s.mapSpans f).namedType? name = s.namedType? name := by
  simp only [namedType?, data?_mapSpans, enum?_mapSpans]
  cases s.data? name with
  | some d => rfl
  | none => cases s.enum? name <;> rfl

end Scope

namespace Environment

variable (env : Environment)

@[simp] theorem current_mapSpans : (env.mapSpans f).current = env.current := rfl

@[simp] theorem scope_mapSpans (id : ScopeId) :
    (env.mapSpans f).scope id = (env.scope id).mapSpans f := by
  simp only [scope, mapSpans, Array.getElem?_map]
  cases env.scopes[id.index]? <;> rfl

/-- A search that finds what corresponds in every scope. -/
theorem search_mapSpans {α : Type} {find : Scope → Option α} {g : α → α}
    (h : ∀ s : Scope, find (s.mapSpans f) = (find s).map g) :
    (env.mapSpans f).search find = (env.search find).map g := by
  unfold search
  rw [current_mapSpans]
  induction env.current with
  | nil => rfl
  | cons id rest ih =>
    rw [List.findSome?_cons, List.findSome?_cons, scope_mapSpans, h]
    cases find (env.scope id) with
    | none => exact ih
    | some a => rfl

@[simp] theorem cell?_mapSpans (name : String) : (env.mapSpans f).cell? name = env.cell? name := by
  have h : (env.mapSpans f).search (·.cell? name) = (env.search (·.cell? name)).map id :=
    env.search_mapSpans fun s => by
      rw [Option.map_id]
      rfl
  rw [Option.map_id] at h
  exact h

@[simp] theorem overloads_mapSpans (name : String) :
    (env.mapSpans f).overloads name = (env.overloads name).map (Sub.mapSpans f) := by
  simp only [overloads, current_mapSpans, scope_mapSpans, Scope.overloads_mapSpans,
    List.map_flatMap]

@[simp] theorem hasSub_mapSpans (name : String) :
    (env.mapSpans f).hasSub name = env.hasSub name := by
  simp only [hasSub, current_mapSpans, scope_mapSpans, Scope.mapSpans, List.any_map]
  rfl

@[simp] theorem data?_mapSpans (name : String) :
    (env.mapSpans f).data? name = (env.data? name).map (DataDecl.mapSpans f) :=
  env.search_mapSpans fun s => s.data?_mapSpans name

@[simp] theorem enum?_mapSpans (name : String) :
    (env.mapSpans f).enum? name = (env.enum? name).map (EnumDecl.mapSpans f) :=
  env.search_mapSpans fun s => s.enum?_mapSpans name

@[simp] theorem namedType?_mapSpans (name : String) :
    (env.mapSpans f).namedType? name = env.namedType? name := by
  have h : (env.mapSpans f).search (·.namedType? name) =
      (env.search (·.namedType? name)).map id :=
    env.search_mapSpans fun s => by
      rw [Option.map_id]
      exact s.namedType?_mapSpans name
  rw [Option.map_id] at h
  exact h

@[simp] theorem currentScope_mapSpans :
    (env.mapSpans f).currentScope = env.currentScope.mapSpans f :=
  env.scope_mapSpans env.currentId

theorem pushBelow_mapSpans (path : ScopePath) :
    (env.mapSpans f).pushBelow path = (env.pushBelow path).mapSpans f := by
  simp only [pushBelow, mapSpans, Array.size_map, Array.map_push]
  rfl

/-- A change of the current scope, where the changes correspond. -/
theorem modifyCurrent_mapSpans {g g' : Scope → Scope}
    (h : ∀ s : Scope, g' (s.mapSpans f) = (g s).mapSpans f) :
    (env.mapSpans f).modifyCurrent g' = (env.modifyCurrent g).mapSpans f := by
  have hscopes := Store.modify_map (fun s => (h s).symm) env.scopes env.currentId.index
  exact congrArg (Environment.mk · _) hscopes

end Environment

namespace Report

@[simp] theorem orSpan_mapSpans (e : Report) (span : Span) :
    (e.orSpan span).mapSpans f = (e.mapSpans f).orSpan (f span) := by
  obtain ⟨fault, span', trace, backtrace⟩ := e
  cases span' <;> rfl

@[simp] theorem traced_mapSpans (e : Report) (what : String) (span : Span) :
    (e.traced what span).mapSpans f = (e.mapSpans f).traced what (f span) := by
  simp only [traced, mapSpans, List.map_append, List.map_cons, List.map_nil]
  rfl

theorem withBacktrace_fault (e : Report) (frames : List CallFrame) :
    (e.withBacktrace frames).fault = e.fault := by
  unfold withBacktrace
  split <;> rfl

@[simp] theorem withBacktrace_mapSpans (e : Report) (frames : List CallFrame) :
    (e.withBacktrace frames).mapSpans f =
      (e.mapSpans f).withBacktrace (frames.map (CallFrame.mapSpans f)) := by
  obtain ⟨fault, span', trace, backtrace⟩ := e
  cases backtrace <;> cases frames <;> rfl

end Report

namespace Flow

@[simp] theorem loopStep_mapSpans (flow : Flow) (label : Option String) :
    (flow.mapSpans f).loopStep label = (flow.loopStep label).mapSpans f := by
  cases flow with
  | normal => rfl
  | signal s =>
    cases s with
    | breakTo aim =>
      simp only [mapSpans, Signal.mapSpans, loopStep]
      split <;> rfl
    | nextTo aim =>
      simp only [mapSpans, Signal.mapSpans, loopStep]
      split <;> rfl
    | _ => rfl

@[simp] theorem afterBlock_mapSpans (flow : Flow) (label : Option String) :
    (flow.mapSpans f).afterBlock label = (flow.afterBlock label).mapSpans f := by
  cases flow with
  | normal => rfl
  | signal s =>
    cases s with
    | breakTo aim =>
      simp only [mapSpans, Signal.mapSpans, afterBlock]
      split <;> rfl
    | nextTo aim =>
      simp only [mapSpans, Signal.mapSpans, afterBlock]
      split <;> rfl
    | _ => rfl

@[simp] theorem caseStep_mapSpans (flow : Flow) (label : Option String) :
    (flow.mapSpans f).caseStep label = (flow.caseStep label).mapSpans f := by
  cases flow with
  | normal => rfl
  | signal s =>
    cases s with
    | breakTo aim =>
      cases aim with
      | none => rfl
      | some aim =>
        simp only [mapSpans, Signal.mapSpans, caseStep]
        split <;> rfl
    | nextTo aim =>
      simp only [mapSpans, Signal.mapSpans, caseStep]
      split <;> rfl
    | _ => rfl

end Flow

@[simp] theorem Pending.isMissing_mapSpans (arg : Pending) :
    (arg.mapSpans f).isMissing = arg.isMissing := by
  cases arg with
  | ready v => exact v.isMissing_mapSpans
  | deferred e => rfl

section Identity

@[simp] theorem Field.mapSpans_id (d : Field) : d.mapSpans id = d := by
  simp only [Field.mapSpans, mapOption_id Expr.mapSpans_id]

@[simp] theorem DataDecl.mapSpans_id (d : DataDecl) : d.mapSpans id = d := by
  simp only [DataDecl.mapSpans, List.map_id'' Field.mapSpans_id]

@[simp] theorem Value.mapSpans_id (v : Value) : v.mapSpans id = v := by
  induction v with
  | entry enum name ordinal v ih => rw [mapSpans, ih]
  | data d cells => rw [mapSpans, d.mapSpans_id]
  | _ => rfl

@[simp] theorem EnumDecl.mapSpans_id (d : EnumDecl) : d.mapSpans id = d := by
  have hentry : ∀ e : String × Value, (e.1, e.2.mapSpans id) = e := fun e => by
    rw [e.2.mapSpans_id]
  simp only [EnumDecl.mapSpans, List.map_id'' hentry]

@[simp] theorem Cell.mapSpans_id (c : Cell) : c.mapSpans id = c := by
  simp only [Cell.mapSpans, Value.mapSpans_id]

@[simp] theorem ArrayBlock.mapSpans_id (b : ArrayBlock) : b.mapSpans id = b := by
  simp only [ArrayBlock.mapSpans, funext Value.mapSpans_id, Array.map_id']

@[simp] theorem Store.mapSpans_id (σ : Store) : σ.mapSpans id = σ := by
  simp only [Store.mapSpans, funext Cell.mapSpans_id, funext ArrayBlock.mapSpans_id, Array.map_id']

@[simp] theorem Parameter.mapSpans_id (p : Parameter) : p.mapSpans id = p := by
  simp only [Parameter.mapSpans, mapOption_id Expr.mapSpans_id]

@[simp] theorem Sub.mapSpans_id (s : Sub) : s.mapSpans id = s := by
  simp only [Sub.mapSpans, List.map_id'' Parameter.mapSpans_id, List.map_id'' Stmt.mapSpans_id]

@[simp] theorem Scope.mapSpans_id (s : Scope) : s.mapSpans id = s := by
  simp only [Scope.mapSpans, List.map_id'' Sub.mapSpans_id, List.map_id'' DataDecl.mapSpans_id,
    List.map_id'' EnumDecl.mapSpans_id]

@[simp] theorem Environment.mapSpans_id (env : Environment) : env.mapSpans id = env := by
  simp only [Environment.mapSpans, funext Scope.mapSpans_id, Array.map_id']

theorem CallFrame.mapSpans_id (c : CallFrame) : c.mapSpans id = c := rfl

theorem TraceEntry.mapSpans_id (t : TraceEntry) : t.mapSpans id = t := rfl

@[simp] theorem Report.mapSpans_id (e : Report) : e.mapSpans id = e := by
  simp only [Report.mapSpans, Option.map_id, id, List.map_id'' TraceEntry.mapSpans_id,
    mapOption_id (List.map_id'' CallFrame.mapSpans_id)]

@[simp] theorem Outcome.mapSpans_id (o : Outcome) : o.mapSpans id = o := by
  cases o <;> simp only [Outcome.mapSpans, Value.mapSpans_id]

end Identity

end BasicScript
