import BasicScript.Proofs.Stores.Assignment
import BasicScript.Proofs.Types.Entries
import BasicScript.Proofs.Types.Literal

/-! # Members by name and by position

The fields of a composite and the entries of an enum go by their names and by
their positions. Lookup by name finds the first bearer of the name, so a name
and a position agree wherever no earlier field or entry bears the name too:
the same cell is read, and a store through the one does in every respect what
it does through the other.
-/

namespace BasicScript

/-- A field stands at a place of a declaration, and no earlier one bears its name. -/
structure DataDecl.FirstAt (d : DataDecl) (i : Nat) (field : Field) : Prop where
  here : d.fields[i]? = some field
  first : ∀ f ∈ d.fields.take i, f.name ≠ field.name

/-- An entry stands at a place of a declaration, and no earlier one bears its name. -/
structure EnumDecl.FirstAt (d : EnumDecl) (i : Nat) (entry : String) (v : Value) : Prop where
  here : d.entries[i]? = some (entry, v)
  first : ∀ e ∈ d.entries.take i, e.1 ≠ entry

theorem DataDecl.FirstAt.fieldIndex? {d : DataDecl} {i : Nat} {field : Field}
    (h : d.FirstAt i field) : d.fieldIndex? field.name = some i := by
  obtain ⟨hbound, hfield⟩ := List.getElem?_eq_some_iff.mp h.here
  refine List.findIdx?_eq_some_iff_getElem.mpr ⟨hbound, ?_, fun j hj => ?_⟩
  · exact beq_iff_eq.mpr (congrArg Field.name hfield)
  · exact mt eq_of_beq (h.first _ (List.mem_take_iff_getElem.mpr ⟨j, by omega, rfl⟩))

/-- What goes by the name of an entry is the first entry of the name. -/
theorem EnumDecl.FirstAt.find? {d : EnumDecl} {i : Nat} {entry : String} {v : Value}
    (h : d.FirstAt i entry v) : d.find? entry = some (.entry d.name entry i v) := by
  have hvalues : ∀ j e, d.entries[j]? = some e → d.values[j]? =
      some (Value.entry d.name e.1 j e.2) :=
    fun j e he => by rw [values_getElem?, he, Option.map_some]
  obtain ⟨hbound, hi⟩ := List.getElem?_eq_some_iff.mp (hvalues i _ h.here)
  refine List.find?_eq_some_iff_getElem.mpr ⟨beq_self_eq_true entry, i, hbound, hi, fun j hj => ?_⟩
  have hentry : j < d.entries.length :=
    Nat.lt_trans hj (List.getElem?_eq_some_iff.mp h.here).1
  obtain ⟨_, hj'⟩ := List.getElem?_eq_some_iff.mp (hvalues j _ (List.getElem?_eq_getElem hentry))
  have hne := h.first _ (List.mem_take_iff_getElem.mpr ⟨j, by omega, rfl⟩)
  rw [hj', Bool.not_eq_true']
  exact beq_eq_false_iff_ne.mpr hne

/-- Names of the fields of an instance. -/
def Value.fieldNames : Value → List String
  | .data d _ => d.fields.map Field.name
  | _ => []

/-- Cells of the fields of an instance. -/
def Value.fieldCells : Value → List CellId
  | .data _ cells => cells
  | _ => []

/-- Name and ordinal of an entry. -/
def Value.entry? : Value → Option (String × Nat)
  | .entry _ name ordinal _ => some (name, ordinal)
  | _ => Option.none

/-- Result of a run, if it has one. -/
def Run.result? {α : Type} (x : Run α) (s : State) : Option α :=
  match x s with
  | .ok a _ => some a
  | .error .. => none

theorem DataDecl.firstAt_of_names {d : DataDecl} {i : Nat} {name : String}
    (hi : (d.fields.map Field.name)[i]? = some name)
    (hfirst : name ∉ (d.fields.map Field.name).take i) :
    ∃ field, d.FirstAt i field ∧ field.name = name := by
  rw [List.getElem?_map] at hi
  obtain ⟨field, hfield, rfl⟩ := Option.map_eq_some_iff.mp hi
  refine ⟨field, ⟨hfield, fun f hf heq => hfirst ?_⟩, rfl⟩
  rw [← List.map_take, ← heq]
  exact List.mem_map_of_mem hf

theorem EnumDecl.firstAt_of_names {d : EnumDecl} {i : Nat} {name : String}
    (hi : (d.entries.map Prod.fst)[i]? = some name)
    (hfirst : name ∉ (d.entries.map Prod.fst).take i) : ∃ v, d.FirstAt i name v := by
  rw [List.getElem?_map] at hi
  obtain ⟨⟨_, v⟩, he, rfl⟩ := Option.map_eq_some_iff.mp hi
  refine ⟨v, he, fun e' he' heq => hfirst ?_⟩
  rw [← List.map_take, ← heq]
  exact List.mem_map_of_mem he'

namespace Evaluator

variable {s t : State} {d : DataDecl} {cells : List CellId} {cell : CellId} {field : Field}
  {i : Nat} {n : Number}

/-- A cell for each field. -/
theorem cell_at (h : s.Holds (.data d cells)) (hi : d.fields[i]? = some field) :
    ∃ cell, cells[i]? = some cell := by
  have hbound : i < cells.length := h.2.length_eq ▸ (List.getElem?_eq_some_iff.mp hi).1
  exact ⟨_, List.getElem?_eq_getElem hbound⟩

theorem fieldCell_first (h : d.FirstAt i field) (hcell : cells[i]? = some cell) (s : State) :
    fieldCell d cells field.name s = .ok cell s := by
  unfold fieldCell
  rw [h.fieldIndex?, Option.bind_some, hcell]
  rfl

theorem getMember_first (h : d.FirstAt i field) (hcell : cells[i]? = some cell) (s : State) :
    getMember (.data d cells) field.name s = .ok (s.store.read cell) s :=
  Run.bind_ok (fieldCell_first h hcell s) _

/-- A whole number that is not negative stands for itself. -/
theorem position_number (hint : n.kind.isIntegral = true) (hn : n.toInt = i) (s : State) :
    Run.position (.number n) s = .ok i s := by
  unfold Run.position
  have hwhole : (Value.number n).integral? = some (i : Int) := by
    simp only [Value.integral?, Number.integral?, hint, if_true, hn]
  rw [hwhole]
  rfl

theorem getIndex_at (hint : n.kind.isIntegral = true) (hn : n.toInt = i)
    (hcell : cells[i]? = some cell) (s : State) :
    getIndex (.data d cells) (.number n) s = .ok (s.store.read cell) s := by
  refine (Run.bind_ok (position_number hint hn s) _).trans ?_
  show Run.atIndex _ (cells[i]?.map s.store.read) s = _
  rw [hcell]
  rfl

variable {r : Evaluator}

/-- A store into the cell of a field. -/
def storeField (r : Evaluator) (cell : CellId) (name : String) (value : Expr) : Run Value := do
  let type ← Run.read fun s => (s.store.cell cell).type
  let v ← r.eval type.hint? value
  Run.assign cell name v

/-- An assignment to a variable stores into its cell in the same way. -/
theorem assignExpr_name {left : Expr} {name : String} (hleft : left.kind = .name name)
    (hcell : s.env.cell? name = some cell) (right : Expr) :
    r.assignExpr left right s = r.storeField cell name right s := by
  unfold assignExpr
  rw [hleft]
  exact Run.bind_ok (Run.cellOf_ok hcell) _

theorem setFieldAt_at (hint : n.kind.isIntegral = true) (hn : n.toInt = i)
    (hi : d.fields[i]? = some field) (hcell : cells[i]? = some cell) (value : Expr) (s : State) :
    r.setFieldAt d cells (.number n) value s = r.storeField cell field.name value s := by
  refine (Run.bind_ok (position_number hint hn s) _).trans ?_
  have hplace : Run.atIndex (.number n) cells[i]? s = .ok cell s := by
    rw [hcell]
    rfl
  refine (Run.bind_ok hplace _).trans ?_
  have hfield : Run.atIndex (.number n) d.fields[i]? s = .ok field s := by
    rw [hi]
    rfl
  exact Run.bind_ok hfield _

theorem setMemberExpr_first {target : Expr} (ht : r.eval none target s = .ok (.data d cells) t)
    (h : d.FirstAt i field) (hcell : cells[i]? = some cell) (value : Expr) :
    r.setMemberExpr target field.name value s = r.storeField cell field.name value t :=
  (Run.bind_ok ht _).trans (Run.bind_ok (fieldCell_first h hcell t) _)

theorem setIndexExpr_at {target index : Expr}
    (ht : r.eval none target s = .ok (.data d cells) t)
    (hindex : r.eval none index t = .ok (.number n) t) (hint : n.kind.isIntegral = true)
    (hn : n.toInt = i) (hi : d.fields[i]? = some field) (hcell : cells[i]? = some cell)
    (value : Expr) :
    r.setIndexExpr target index value s = r.storeField cell field.name value t :=
  (Run.bind_ok ht _).trans ((Run.bind_ok hindex _).trans (setFieldAt_at hint hn hi hcell value t))

/-- Names and positions agree. Where no earlier field bears the name, reading a field of an instance
by its name and by its position reads one cell, and storing goes through that cell in the same way:
with the same result, the same error, and the same state at the end. Where no earlier entry bears
the name, an entry of an enum is the one of its ordinal, at its place among those that iteration
yields. -/
theorem names_and_positions {settings : Settings} {s : State} (h : s.Amid settings) (fuel : Nat) :
    let r := ofFuel .standard fuel
    (∀ target d cells t, r.eval none target s = .ok (.data d cells) t →
      ∀ i field, d.FirstAt i field → ∃ cell, cells[i]? = some cell ∧
        ∀ index n, r.eval none index t = .ok (.number n) t → n.kind.isIntegral = true →
          n.toInt = (i : Int) → ∀ hint span,
            (r.expr hint (.mk (.getMember target field.name) span) s =
                .ok (t.store.read cell) t ∧
              r.expr hint (.mk (.getIndex target index) span) s = .ok (t.store.read cell) t) ∧
            ∀ value, r.expr hint (.mk (.setMember target field.name value) span) s =
                Run.atSpan span (r.storeField cell field.name value) t ∧
              r.expr hint (.mk (.setIndex target index value) span) s =
                Run.atSpan span (r.storeField cell field.name value) t) ∧
    ∀ name d, s.env.enum? name = some d → ∀ i entry v, d.FirstAt i entry v →
      (∀ hint span, r.expr hint (.mk (.enumEntry name entry) span) s =
        .ok (.entry name entry i v) s) ∧
      (s.env.namedType? name = some (.enum name) → ∀ e : Expr, e.kind = .type (.named name) →
        ∃ entries, r.iterationValues e s = .ok entries s ∧
          entries[i]? = some (.entry name entry i v)) := by
  intro r
  have hsound : r.Sound := standard_sound fuel
  refine ⟨fun target d cells t ht i field hfirst => ?_, fun name d hd i entry v hfirst => ?_⟩
  · obtain ⟨-, -, hvalue⟩ := hsound.eval none target s h.typed
    obtain ⟨cell, hcell⟩ := cell_at (hvalue _ _ ht) hfirst.here
    refine ⟨cell, hcell, fun index n hindex hint hn hhint span => ⟨⟨?_, ?_⟩, fun value => ?_⟩⟩
    · exact Run.atSpan_ok span ((Run.bind_ok ht _).trans (getMember_first hfirst hcell t))
    · refine Run.atSpan_ok span ((Run.bind_ok ht _).trans ((Run.bind_ok hindex _).trans ?_))
      exact getIndex_at hint hn hcell t
    · constructor
      · show Run.atSpan span (r.setMemberExpr target field.name value) s = _
        simp only [Run.atSpan, Run.mapReport, setMemberExpr_first ht hfirst hcell]
      · show Run.atSpan span (r.setIndexExpr target index value) s = _
        simp only [Run.atSpan, Run.mapReport,
          setIndexExpr_at ht hindex hint hn hfirst.here hcell]
  · obtain ⟨-, -, -, -, rfl⟩ := Environment.enum?_some hd
    refine ⟨fun hint span => ?_, fun htype e he => ⟨d.values, ?_, ?_⟩⟩
    · exact eval_enumEntry hd hfirst.find? (e := .mk (.enumEntry d.name entry) span) rfl fuel hint
    · exact (EnumDecl.readIn hd).byIteration htype fuel e he
    · rw [EnumDecl.values_getElem?, hfirst.here, Option.map_some]

/-- The program `data P { a int, b string }  var x as P = P { 1, "b" }  enum E as int { X, Y }`. -/
def declaringMembers : List Stmt :=
  [.generated (.data "P" [⟨"a", .prim .int, false, none⟩, ⟨"b", .prim .string, false, none⟩]),
    .generated (.declare "x" (.named "P") (.generated (.instantiate (some (.named "P"))
      [.generated (.literal (.int 1)), .generated (.literal (.string "b"))])) false),
    .generated (.enum "E" (.basic (.prim .int)) [⟨"X", []⟩, ⟨"Y", []⟩])]

theorem names_and_positions_declaringMembers :
    let s := ((interrupted .standard (fun _ => false) 4).run declaringMembers).state
      (.initial ⟨false, none, true⟩)
    let r := ofFuel .standard 2
    let x := Expr.generated (.name "x")
    let one := Expr.generated (.literal (.int 1))
    Reaches .standard (.initial ⟨false, none, true⟩) s ∧
    (∃ cell, r.expr none (.generated (.getMember x "b")) s = .ok (s.store.read cell) s ∧
      r.expr none (.generated (.getIndex x one)) s = .ok (s.store.read cell) s ∧
      ∀ value, r.expr none (.generated (.setMember x "b" value)) s =
        r.expr none (.generated (.setIndex x one value)) s) ∧
    ∃ v entries, r.expr none (.generated (.enumEntry "E" "Y")) s = .ok (.entry "E" "Y" 1 v) s ∧
      r.iterationValues (.generated (.type (.named "E"))) s = .ok entries s ∧
      entries[1]? = some (.entry "E" "Y" 1 v) := by
  intro s r x one
  have h : Reaches .standard (.initial ⟨false, none, true⟩) s :=
    .run declaringMembers (fun _ => false) 4 .refl
  have hcell : s.env.cell? "x" = some ⟨2⟩ := by decide +kernel
  have hnames : (s.store.read ⟨2⟩).fieldNames = ["a", "b"] := by decide +kernel
  have hentries : (s.env.enum? "E").map (·.entries.map Prod.fst) = some ["X", "Y"] := by
    decide +kernel
  have htype : s.env.namedType? "E" = some (.enum "E") := by decide +kernel
  clear_value s
  obtain ⟨hfield, hentry⟩ := names_and_positions h.amid 2
  have hx : r.eval none x s = .ok (s.store.read ⟨2⟩) s :=
    Run.atSpan_ok _ (Run.bind_ok (Run.cellOf_ok hcell) _)
  obtain ⟨d, cells, hd⟩ : ∃ d cells, s.store.read ⟨2⟩ = .data d cells := by
    cases hv : s.store.read ⟨2⟩ with
    | data d cells => exact ⟨d, cells, rfl⟩
    | _ => cases (congrArg Value.fieldNames hv).symm.trans hnames
  rw [hd] at hx hnames
  have hfields : d.fields.map Field.name = ["a", "b"] := hnames
  obtain ⟨field, hfirst, hname⟩ : ∃ field, d.FirstAt 1 field ∧ field.name = "b" :=
    DataDecl.firstAt_of_names (congrArg (·[1]?) hfields) (by rw [hfields]; decide)
  obtain ⟨cell, -, hsame⟩ := hfield x d cells s hx 1 field hfirst
  obtain ⟨⟨hmember, hindex⟩, hstores⟩ := hsame one (.int 1) rfl rfl rfl none .nowhere
  rw [hname] at hmember hstores
  obtain ⟨e, he, hentries⟩ := Option.map_eq_some_iff.mp hentries
  obtain ⟨v, hfirst'⟩ : ∃ v, e.FirstAt 1 "Y" v :=
    EnumDecl.firstAt_of_names (congrArg (·[1]?) hentries) (by rw [hentries]; decide)
  obtain ⟨hread, hiteration⟩ := hentry "E" e he 1 "Y" v hfirst'
  obtain ⟨entries, hvalues, hplace⟩ := hiteration htype (.generated (.type (.named "E"))) rfl
  exact ⟨h, ⟨cell, hmember, hindex, fun value => (hstores value).1.trans (hstores value).2.symm⟩,
    v, entries, hread none .nowhere, hvalues, hplace⟩

/-- The program `data P { a int, a int }  var x as P = P { 1, 2 }  enum E as int { X, X }`. -/
def repeatingNames : List Stmt :=
  [.generated (.data "P" [⟨"a", .prim .int, false, none⟩, ⟨"a", .prim .int, false, none⟩]),
    .generated (.declare "x" (.named "P") (.generated (.instantiate (some (.named "P"))
      [.generated (.literal (.int 1)), .generated (.literal (.int 2))])) false),
    .generated (.enum "E" (.basic (.prim .int)) [⟨"X", []⟩, ⟨"X", []⟩])]

/-- Declarations that repeat a name are accepted, and then the second field of the name is not the
one that the name stands for, and neither is the second entry. -/
theorem names_hide_positions :
    let s := ((interrupted .standard (fun _ => false) 4).run repeatingNames).state
      (.initial ⟨false, none, true⟩)
    let r := ofFuel .standard 2
    let x := Expr.generated (.name "x")
    let one := Expr.generated (.literal (.int 1))
    let shows := fun kind => ((r.expr none (.generated kind)).result? s).map s.store.text
    let E := (r.iterationValues (.generated (.type (.named "E")))).result? s
    Reaches .standard (.initial ⟨false, none, true⟩) s ∧ s.env.cell? "x" = some ⟨2⟩ ∧
    (s.store.read ⟨2⟩).fieldNames = ["a", "a"] ∧
    shows (.getMember x "a") = some "1" ∧ shows (.getIndex x one) = some "2" ∧
    E.map (·.map Value.entry?) = some [some ("X", 0), some ("X", 1)] ∧
    ((r.expr none (.generated (.enumEntry "E" "X"))).result? s).map Value.entry? =
      some (some ("X", 0)) := by
  intro s r x one shows E
  refine ⟨.run repeatingNames (fun _ => false) 4 .refl, ?_⟩
  decide +kernel

end Evaluator

end BasicScript
