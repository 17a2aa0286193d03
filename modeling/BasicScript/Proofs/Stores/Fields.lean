import BasicScript.Proofs.Stores.Separate

/-! # The cells of composites

A composite gets its cells one after another, each of them new. No rule of the
language makes a composite in another way, and so the fields of all composites
have cells of their own, whatever programs do with the standard library.
-/

namespace BasicScript

/-- Evaluators that keep values separate, and storage growing. -/
structure Evaluator.Separates (r : Evaluator) : Prop where
  eval : ∀ hint e, (r.eval hint e).Separates Value.Separate
  exec : ∀ stmt, (r.exec stmt).Separates Flow.Separate
  default : ∀ t, (r.default t).Separates Value.Separate
  invoke : ∀ name args, (∀ v ∈ args, v.Separate) →
    (r.invoke name args).Separates Value.Separate
  grows : r.Precedes none False r

/-- Storage never loses a cell. -/
theorem Run.Tracks.cells_le {α : Type} {x : Run α} {a : α} {s t : State}
    (h : Tracks none False False x x) (hrun : x s = .ok a t) :
    s.store.cells.size ≤ t.store.cells.size := by
  have hframe := h.frame s
  rw [state_ok hrun] at hframe
  exact hframe.grows.store.cells.size_le

namespace Evaluator.Separates

open Run.Separates (pure fail failOn failBind readBind require ite)

variable {r : Evaluator}

theorem arraySize (h : r.Separates) (size : Expr) :
    (r.arraySize size).Separates fun _ => True := by
  refine (h.eval none size).bind fun v _ => ?_
  split
  · exact pure trivial
  · exact failOn _ _

theorem resolveType (h : r.Separates) (written : TypeExpr) :
    (r.resolveType written).Separates fun _ => True := by
  fun_induction Evaluator.resolveType r written with
  | case1 => exact pure trivial
  | case2 p => exact pure trivial
  | case3 element ih => exact ih.bind fun _ _ => pure trivial
  | case4 element size ih =>
    exact ih.bind fun _ _ => (h.arraySize size).bind fun _ _ => pure trivial
  | case5 element ih => exact ih.bind fun _ _ => pure trivial
  | case6 name => exact readBind fun _ => require fun _ _ => trivial

theorem fieldValue (h : r.Separates) (scope : ScopePath) (field : Field)
    (element : Option Expr) : (r.fieldValue scope field element).Separates Value.Separate := by
  have hsupplied : (r.suppliedValue field.type element).Separates Value.Separate := by
    cases element with
    | none => exact pure trivial
    | some e => exact h.eval _ _
  refine hsupplied.bind fun supplied hv => ite ?_ (pure hv)
  split
  · exact .inLiveScope _ (h.eval _ _)
  · exact h.default _

/-- Cells for fields are new ones, in ascending order. -/
theorem fieldCells_ascend (h : r.Separates) (scope : ScopePath) (fields : List Field)
    {elements : List Expr} {s t : State} {cells : List CellId}
    (hrun : r.fieldCells scope fields elements s = .ok cells t) :
    cells.Pairwise (·.index < ·.index) ∧ ∀ id ∈ cells, s.store.cells.size ≤ id.index := by
  induction fields generalizing elements s cells with
  | nil =>
    cases hrun
    exact ⟨.nil, List.forall_mem_nil _⟩
  | cons field fields ih =>
    obtain ⟨v, s₁, hvalue, hrun⟩ := Run.exists_of_bind_ok hrun
    obtain ⟨w, s₂, hconform, hrun⟩ := Run.exists_of_bind_ok hrun
    obtain ⟨cell, s₃, hcell, hrun⟩ := Run.exists_of_bind_ok hrun
    obtain ⟨rest, s₄, hrest, hrun⟩ := Run.exists_of_bind_ok hrun
    cases hrun
    cases hcell
    have hbefore : s.store.cells.size ≤ s₂.store.cells.size :=
      ((h.grows.fieldValue scope field elements.head?).cells_le hvalue).trans
        ((Run.Tracks.conform field.type v).cells_le hconform)
    obtain ⟨hascend, hnew⟩ := ih hrest
    have hlater : ∀ id ∈ rest, s₂.store.cells.size < id.index := by
      intro id hid
      have hle : (s₂.store.cells.push _).size ≤ id.index := hnew id hid
      rwa [Array.size_push] at hle
    refine ⟨.cons hlater hascend, List.forall_mem_cons.mpr ⟨hbefore, fun id hid => ?_⟩⟩
    exact hbefore.trans (hlater id hid).le

/-- The cells that are made for the fields of one composite are distinct. -/
theorem fieldCells (h : r.Separates) (scope : ScopePath) (fields : List Field)
    (elements : List Expr) : (r.fieldCells scope fields elements).Separates List.Nodup := by
  have hkeeps : (r.fieldCells scope fields elements).Separates fun _ => True := by
    induction fields generalizing elements with
    | nil => exact pure trivial
    | cons field fields ih =>
      exact (h.fieldValue scope field _).bind fun v hv => (Run.Separates.conform _ hv).bind
        fun w hw => (Run.Separates.newCell (c := ⟨field.type, w, field.constant⟩) hw).bind
          fun _ _ => (ih _).bind fun _ _ => pure trivial
  refine hkeeps.known fun s cells t hrun => ?_
  refine (h.fieldCells_ascend scope fields hrun).1.imp fun hlt => ?_
  rintro rfl
  exact Nat.lt_irrefl _ hlt

theorem instantiateData (h : r.Separates) (name : String) (elements : List Expr) :
    (r.instantiateData name elements).Separates Value.Separate := by
  have hbuild : ∀ decl : DataDecl, (do
      return Value.data decl (← r.fieldCells decl.scope decl.fields elements) :
        Run Value).Separates Value.Separate :=
    fun decl => (h.fieldCells _ _ _).bind fun cells hcells => pure hcells
  exact readBind fun found => (require (P := fun _ => True) fun _ _ => trivial).bind
    fun decl _ => ite (failBind _) (hbuild decl)

theorem defaults (h : r.Separates) (n : Nat) (element : Ty) :
    ((List.replicate n element).mapM r.default).Separates fun vs => ∀ v ∈ vs, v.Separate :=
  .mapM _ fun t _ => h.default t

theorem instantiateArray (h : r.Separates) (element : Ty) (size : Option Nat)
    (elements : List Expr) :
    (r.instantiateArray element size elements).Separates Value.Separate := by
  refine ite (failBind _) ?_
  refine (Run.Separates.mapM elements fun e _ => (h.eval _ e).bind fun v hv =>
    .conform element hv).bind fun given hgiven => (h.defaults _ element).bind
      fun filler hfiller => .newArray element fun v hv => ?_
  exact (List.mem_append.mp hv).elim (hgiven v) (hfiller v)

theorem instantiate (h : r.Separates) (t : Ty) (elements : List Expr) :
    (r.instantiate t elements).Separates Value.Separate := by
  unfold Evaluator.instantiate
  split
  · exact h.instantiateData _ _
  · exact h.instantiateArray _ _ _
  · exact h.instantiateArray _ _ _
  · exact fail _

theorem arrayLiteral (h : r.Separates) (hint : Option Ty) (elements : List Expr) :
    (r.arrayLiteral hint elements).Separates Value.Separate := by
  refine (Run.Separates.mapM (Q := fun p : Value × Ty => p.1.Separate) elements fun e _ =>
    (h.eval hint e).bind fun v hv => readBind fun _ =>
      (require (P := fun _ => True) fun _ _ => trivial).bind fun _ _ => pure hv).bind
        fun typed htyped => ?_
  exact (Run.Separates.mapM typed fun p hp => .conform _ (htyped p hp)).bind
    fun values hvalues => .newArray _ hvalues

theorem defaultValue (h : r.Separates) (t : Ty) :
    (r.defaultValue t).Separates Value.Separate := by
  unfold Evaluator.defaultValue
  split
  · exact pure trivial
  · exact pure trivial
  · exact pure trivial
  · exact pure trivial
  · exact pure trivial
  · split
    · exact pure trivial
    · exact fail _
  · exact fail _
  · exact (h.defaults _ _).bind fun vs hvs => .newArray _ hvs
  · exact .newArray _ (List.forall_mem_nil _)
  · exact h.instantiateData _ _
  · next name =>
    refine Run.Separates.bind (P := fun found => ∀ d, found = some d → ∀ v ∈ d.values, v.Separate)
      (.read fun s hs d hd => hs.entry hd) fun found hfound => ?_
    refine (require hfound).bind fun d hd => require fun v hv => ?_
    exact hd v (List.mem_of_mem_head? hv)

theorem iterationValues (h : r.Separates) (iterable : Expr) :
    (r.iterationValues iterable).Separates fun vs => ∀ v ∈ vs, v.Separate := by
  unfold Evaluator.iterationValues
  split
  · refine (h.resolveType _).bind fun t _ => ?_
    split
    · refine Run.Separates.bind
        (P := fun found => ∀ d, found = some d → ∀ v ∈ d.values, v.Separate)
        (.read fun s hs d hd => hs.entry hd) fun found hfound => ?_
      exact (require hfound).bind fun d hd => pure hd
    · exact (h.eval _ _).bind fun _ _ => .elementsOf _
  · exact (h.eval _ _).bind fun _ _ => .elementsOf _

end Evaluator.Separates

end BasicScript
