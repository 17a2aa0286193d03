import BasicScript.Proofs.Defaults.Footprint
import BasicScript.Proofs.Defaults.Parts
import BasicScript.Proofs.Types.Storage

/-! # Defaults are new

A default that is made neither of enum entries nor by default expressions takes
up storage of its own: every array and every composite in it is new, and no
two of its positions share storage. All that making it changes is that there
is more storage.
-/

namespace BasicScript

namespace State

/-- A new value of a type has come up, and apart from new storage all is as it was. -/
structure Makes (s u : State) (t : Ty) (v : Value) : Prop where
  has : u.Has t v
  rest : u = { s with store := u.store }
  prolongs : s.store.Prolongs u.store
  fresh : s.store.Fresh u.store v

/-- So many new values of a type have come up, which share nothing. -/
structure MakesAll (s u : State) (t : Ty) (vs : List Value) : Prop where
  have_type : ∀ v ∈ vs, u.Has t v
  rest : u = { s with store := u.store }
  prolongs : s.store.Prolongs u.store
  fresh : s.store.AllFresh u.store vs

/-- New cells for fields have come up, which share nothing. -/
structure MakesCells (s u : State) (fields : List Field) (cells : List CellId) : Prop where
  are_fields : List.Forall₂ u.store.IsField fields cells
  rest : u = { s with store := u.store }
  prolongs : s.store.Prolongs u.store
  fresh : s.store.FreshCells u.store cells

variable {s u : State} {t : Ty} {v : Value}

theorem MakesAll.nil (s : State) (t : Ty) : s.MakesAll s t [] :=
  ⟨List.forall_mem_nil _, rfl, .refl _, .nil _ _⟩

theorem MakesCells.nil (s : State) : s.MakesCells s [] [] :=
  ⟨.nil, rfl, .refl _, .nil _ _⟩

/-- A value that takes up no storage. -/
theorem Makes.scalar (h : s.Has t v) (hv : ∀ depth, s.store.footprint depth v = []) :
    s.Makes s t v :=
  ⟨h, rfl, .refl _, .scalar _ _ hv⟩

theorem Makes.env (h : s.Makes u t v) : u.env = s.env := by
  rw [h.rest]

theorem MakesAll.cons {w : State} {vs : List Value} (h : s.Makes u t v) (h' : u.MakesAll w t vs)
    (hg : u.Grows w) : s.MakesAll w t (v :: vs) where
  have_type := List.forall_mem_cons.mpr ⟨h.has.grows hg, h'.have_type⟩
  rest := by rw [h'.rest, h.rest]
  prolongs := h.prolongs.trans h'.prolongs
  fresh := .cons h.fresh h'.fresh h.prolongs h'.prolongs

end State

namespace Run.Sound

variable {α : Type} {x : Run α} {s : State} {P P' : Claim α}

/-- What is known of the result from elsewhere is claimed as well. -/
theorem known (h : x.Sound s P) (hp : ∀ a t, x s = .ok a t → P a t → P' a t) : x.Sound s P' := by
  intro hs
  obtain ⟨ht, hg, hr⟩ := h hs
  exact ⟨ht, hg, fun a t hx => hp a t hx (hr a t hx)⟩

end Run.Sound

namespace Evaluator

open Run.Sound (pure fail failBind readBind requireBind ite typed)

/-- Evaluators whose plain defaults are new. -/
structure MakesDefaults (r : Evaluator) : Prop where
  default : ∀ (t : Ty) (s : State), s.env.Plain t →
    (r.default t).Sound s fun v u => s.Makes u t v

namespace MakesDefaults

variable {r : Evaluator} {s : State}

/-- Defaults for the elements of an array, one after another. -/
theorem defaults (h : r.MakesDefaults) {n : ℕ} {element : Ty}
    (hplain : 0 < n → s.env.Plain element) :
    ((List.replicate n element).mapM r.default).Sound s fun vs u =>
      vs.length = n ∧ s.MakesAll u element vs := by
  induction n generalizing s with
  | zero => exact pure ⟨rfl, .nil s element⟩
  | succ n ih =>
    rw [List.replicate_succ, List.mapM_cons]
    have helement := hplain n.succ_pos
    refine (h.default element s helement).bind fun v u _ hv => ?_
    refine (ih fun _ => hv.env ▸ helement).bind fun vs w hg hvs => pure ⟨congrArg (· + 1) hvs.1, ?_⟩
    exact .cons hv hvs.2 hg

/-- Defaults for the fields of a composite, one after another. -/
theorem fieldCells (h : r.MakesDefaults) (scope : ScopePath) {fields : List Field}
    (hfields : ∀ field ∈ fields, field.default = none ∧ s.env.Plain field.type) :
    (r.fieldCells scope fields []).Sound s fun cells u => s.MakesCells u fields cells := by
  induction fields generalizing s with
  | nil => exact pure (.nil s)
  | cons field fields ih =>
    rw [List.forall_mem_cons] at hfields
    obtain ⟨⟨hnone, hplain⟩, hfields⟩ := hfields
    have hvalue : r.fieldValue scope field none = r.default field.type := by
      unfold Evaluator.fieldValue Evaluator.suppliedValue
      rw [hnone]
      rfl
    have hmade : (r.fieldValue scope field none).Sound s fun v u => s.Makes u field.type v :=
      hvalue ▸ h.default field.type s hplain
    refine hmade.bind fun v u _ hv => typed fun hu => ?_
    -- the value has the type of the field already, so it is taken as it is
    have hconform : Run.conform field.type v u = .ok v u := by
      simp only [Run.conform, Run.fit, hv.has.fits.conform hu.store]
    refine .step hconform ?_
    have hcell : (Run.newCell ⟨field.type, v, field.constant⟩).Sound u fun id w =>
        id = (u.store.newCell ⟨field.type, v, field.constant⟩).1 ∧
          w.store = (u.store.newCell ⟨field.type, v, field.constant⟩).2 ∧
            w = { u with store := w.store } ∧ w.store.IsField field id := by
      refine (Run.Sound.newCell hv.has).known fun id w hrun hid => ?_
      cases hrun
      refine ⟨rfl, rfl, rfl, hid.1, ?_, ?_, ?_⟩
      · rw [hid.2]
      · rw [hid.2]
      · rw [Store.read, hid.2]
        exact hv.has.fits.present
    refine hcell.bind fun id w _ hid => ?_
    obtain ⟨rfl, hstore, hrest, hfield⟩ := hid
    have henv : w.env = s.env := by rw [hrest, hv.rest]
    refine (ih fun f hf => henv ▸ hfields f hf).bind fun cells w' hg hcells => pure ?_
    constructor
    · exact .cons (hfield.grows hg.store) hcells.are_fields
    · rw [hcells.rest, hrest, hv.rest]
    · exact (hv.prolongs.trans (hstore ▸ .newCell _ _)).trans hcells.prolongs
    · exact .cons hv.fresh (hstore ▸ hcells.fresh) hv.prolongs (hstore ▸ hcells.prolongs)

/-- A new array of new values. -/
theorem newArray {t element : Ty} (ht : t.element? = some element) {vs : List Value} {u : State}
    (hvs : s.MakesAll u element vs) (hsize : ∀ n, t.size? = some n → vs.length = n) :
    (Run.newArray element vs).Sound u fun v w => s.Makes w t v := by
  refine (Evaluator.Sound.newArray ht hvs.have_type hsize).known fun v w hrun hv => ?_
  cases hrun
  constructor
  · exact hv
  · rw [hvs.rest]
  · exact hvs.prolongs.trans (.newArray _ _ _)
  · exact .newArray hvs.fresh hvs.prolongs element

/-- A new composite. -/
theorem instantiateData (h : r.MakesDefaults) {name : String}
    (hplain : s.env.Plain (.data name)) :
    (r.instantiateData name []).Sound s fun v u => s.Makes u (.data name) v := by
  refine readBind (requireBind fun decl hdecl => ?_)
  obtain ⟨i, sc, hsc, hmem, hname⟩ := Environment.data?_some hdecl
  have hfields : ∀ field ∈ decl.fields, field.default = none ∧ s.env.Plain field.type :=
    fun _ => hplain.field_type hdecl
  have hbuild : (do return Value.data decl (← r.fieldCells decl.scope decl.fields []) :
      Run Value).Sound s fun v u => s.Makes u (.data name) v := by
    refine (h.fieldCells decl.scope hfields).bind fun cells u hg hcells => pure ?_
    constructor
    · exact ⟨⟨State.Declares.grows ⟨i, sc, hsc, hmem⟩ hg, hcells.are_fields⟩, hname⟩
    · exact hcells.rest
    · exact hcells.prolongs
    · exact hcells.fresh.data decl
  exact ite (fun _ => failBind _) fun _ => hbuild

/-- A default whose parts are new is new. -/
theorem defaultValue (h : r.MakesDefaults) {t : Ty} (hplain : s.env.Plain t) :
    (r.defaultValue t).Sound s fun v u => s.Makes u t v := by
  have hscalar : ∀ {v : Value}, s.Has t v → (∀ depth, s.store.footprint depth v = []) →
      (Pure.pure v : Run Value).Sound s fun v u => s.Makes u t v :=
    fun hv hnothing => pure (.scalar hv hnothing)
  have hnothing : ∀ {v : Value}, v.isPlain = true → ∀ depth, s.store.footprint depth v = [] := by
    intro v hv depth
    cases v <;> first | cases depth <;> rfl | exact nomatch hv
  unfold Evaluator.defaultValue
  split
  · exact hscalar ⟨trivial, rfl⟩ (hnothing rfl)
  · exact hscalar ⟨trivial, rfl⟩ (hnothing rfl)
  · exact hscalar ⟨trivial, rfl⟩ (hnothing rfl)
  · exact hscalar ⟨trivial, rfl⟩ (hnothing rfl)
  · exact hscalar ⟨trivial, rfl⟩ (hnothing rfl)
  · split
    · next k hk =>
      refine hscalar ⟨trivial, Primitive.admits_number ?_⟩ (hnothing rfl)
      rw [Number.kind_ofInt, hk]
    · exact fail _
  · exact fail _
  · next element size =>
    have helement : 0 < size.getD 0 → s.env.Plain element := fun hsize =>
      hplain.part (.element hsize)
    refine (h.defaults helement).bind fun vs u _ hvs => newArray rfl hvs.2 fun n hn => ?_
    rw [hvs.1, show size = some n from hn, Option.getD_some]
  · next element => exact newArray rfl (.nil s element) fun _ hn => nomatch hn
  · next name => exact h.instantiateData hplain
  · next name => exact absurd .refl (hplain.enum name)

end MakesDefaults

/-- Plain defaults are new, whatever the fuel. -/
theorem ofFuel_makesDefaults (library : Library) (fuel : ℕ) :
    (ofFuel library fuel).MakesDefaults := by
  induction fuel with
  | zero => exact ⟨fun _ _ _ => .exhausted⟩
  | succ fuel ih => exact ⟨fun _ _ hplain => ih.defaultValue hplain⟩

end Evaluator

/-- Every value inside a value that the state accounts for has the type of its place. -/
theorem State.Has.position {s : State} (hs : s.Typed) {t t' : Ty} {v w : Value} (h : s.Has t v)
    (hpos : s.store.Position t v t' w) : s.Has t' w := by
  induction hpos with
  | self => exact h
  | element hu _ ih => exact ih (hs.store.elements_have _ _ hu)
  | field hid _ ih =>
    obtain ⟨field, -, hfield⟩ := Store.IsField.of_mem h.holds.2 hid
    exact ih (hs.store.cell_has hfield.bound hfield.present)

/-- Defaults are well typed and new. The default of a type passes the test of the type, and so does
every value inside it for its place; the cells of a composite are those of its fields, in order. If
no enum entry and no default expression goes into it, all storage that it takes up is new, none of
it is taken up twice, and a store into one part of a value inside it shows neither through the other
parts of that value nor through anything that a cell held before. -/
theorem Evaluator.default_fresh {settings : Settings} {s u : State} (hs : s.Amid settings)
    {fuel : ℕ} {t : Ty} {v : Value} (hrun : (ofFuel .standard fuel).default t s = .ok v u) :
    t.check u.store v = .ok () ∧
    (∀ t' w, u.store.Position t v t' w → t'.check u.store w = .ok () ∧
      ∀ decl cells, w = .data decl cells → u.Declares decl ∧
        List.Forall₂ u.store.IsField decl.fields cells) ∧
    (s.env.Plain t → s.store.Fresh u.store v ∧
      ∀ t' w, u.store.Position t v t' w → ∀ i σ, u.store.StoresIn i w σ →
        (∀ j part, i ≠ j → (u.store.parts w)[j]? = some part →
          (σ.parts w)[j]? = some part ∧
            ∀ depth, σ.view depth part = u.store.view depth part) ∧
        ∀ id : CellId, id.index < s.store.cells.size → ∀ depth,
          σ.view depth (σ.read id) = s.store.view depth (s.store.read id)) := by
  obtain ⟨hu, -, hhas⟩ := (standard_sound fuel).default t s hs.typed
  rw [Run.state_ok hrun] at hu
  have hv : u.Has t v := hhas v u hrun
  refine ⟨hv.fits.check hu.store, fun t' w hpos => ?_, fun hplain => ?_⟩
  · have hw := hv.position hu hpos
    refine ⟨hw.fits.check hu.store, ?_⟩
    rintro decl cells rfl
    exact hw.holds
  · obtain ⟨-, -, hmakes⟩ := (ofFuel_makesDefaults .standard fuel).default t s hplain hs.typed
    have hmade := hmakes v u hrun
    refine ⟨hmade.fresh, fun t' w hpos i σ hstore => ?_⟩
    have hw := hmade.fresh.position hpos
    constructor
    · exact fun j part hij hpart => hw.parts_storesIn hstore hij hpart
    · exact fun id hid depth => hw.cell_storesIn hmade.prolongs hstore hid
        (Store.Holds.footprint_in hs.typed.store (hs.typed.store.cell_holds id))

/-- The program `data Row { cells int[2] }`. -/
def declaringRow : List Stmt :=
  [.generated (.data "Row" [⟨"cells",
    .array (.prim .int) (some (.generated (.literal (.int 2)))), false, none⟩])]

/-- The default of `Row[2]` takes up an array, and for each row a cell and an array, all of them new
and each once. -/
theorem default_fresh_declaringRow :
    let s := ((Evaluator.interrupted .standard (fun _ => false) 6).run declaringRow).state
      (.initial ⟨false, none, true⟩)
    let rows : Ty := .array (.data "Row") (some 2)
    Reaches .standard (.initial ⟨false, none, true⟩) s ∧ ∃ v u,
      (Evaluator.ofFuel .standard 6).default rows s = .ok v u ∧ rows.check u.store v = .ok () ∧
        s.env.Plain rows ∧ s.store.Fresh u.store v ∧ u.store.footprint 3 v =
          [.array ⟨2⟩, .cell ⟨0⟩, .array ⟨0⟩, .cell ⟨1⟩, .array ⟨1⟩] := by
  intro s rows
  have h : Reaches .standard (.initial ⟨false, none, true⟩) s :=
    .run declaringRow (fun _ => false) 6 .refl
  have hfields : ∀ name decl, s.env.data? name = some decl → decl.fields =
      [⟨"cells", .array (.prim .int) (some 2), false, none⟩] := by
    intro name decl hdecl
    have hdatas : (s.env.scope ⟨0⟩).datas =
        [⟨"Row", [⟨"cells", .array (.prim .int) (some 2), false, none⟩], [⟨0⟩]⟩] := rfl
    have hcurrent : s.env.current = [⟨0⟩] := rfl
    simp only [Environment.data?, Environment.search, hcurrent, Scope.data?, hdatas,
      List.findSome?_cons, List.findSome?_nil] at hdecl
    by_cases hname : "Row" = name <;> simp [hname] at hdecl
    rw [← hdecl]
  have hplain : s.env.Plain rows := by
    refine .of_closed (· ∈ [rows, .data "Row", .array (.prim .int) (some 2), .prim .int])
      (by simp) ?_ (by simp [rows]) ?_
    · rintro u w hu (⟨-⟩ | ⟨hdecl, hfield, -⟩)
      · simp only [rows, List.mem_cons, Ty.array.injEq, reduceCtorEq, List.not_mem_nil, or_false,
          false_or] at hu
        rcases hu with ⟨rfl, -⟩ | ⟨rfl, -⟩ <;> simp
      · rw [hfields _ _ hdecl, List.mem_singleton] at hfield
        subst hfield
        simp
    · intro name decl _ hdecl field hfield
      rw [hfields name decl hdecl, List.mem_singleton] at hfield
      rw [hfield]
  obtain ⟨v, u, hrun, hfootprint⟩ : ∃ v u,
      (Evaluator.ofFuel .standard 6).default rows s = .ok v u ∧ u.store.footprint 3 v =
        [.array ⟨2⟩, .cell ⟨0⟩, .array ⟨0⟩, .cell ⟨1⟩, .array ⟨1⟩] := ⟨_, _, rfl, by decide +kernel⟩
  have hdefault := Evaluator.default_fresh h.amid hrun
  exact ⟨h, v, u, hrun, hdefault.1, hplain, (hdefault.2.2 hplain).1, hfootprint⟩

end BasicScript
