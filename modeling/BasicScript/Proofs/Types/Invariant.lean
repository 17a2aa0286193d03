import BasicScript.Proofs.Frame.Basic
import BasicScript.Proofs.Types.Conversion

/-! # Typed states

Everything in storage has the type of its place, every handle leads to
storage, and every instance is one of a data declaration in some scope. Only
what resembles the result slot of a sub may still lack a value.
-/

namespace BasicScript

namespace State

/-- Data declarations, of whatever scope. -/
def Declares (s : State) (d : DataDecl) : Prop :=
  ∃ (i : Nat) (sc : Scope), s.env.scopes[i]? = some sc ∧ d ∈ sc.datas

/-- Overloads, of whatever scope. -/
def HasSub (s : State) (sub : Sub) : Prop :=
  ∃ (i : Nat) (sc : Scope), s.env.scopes[i]? = some sc ∧ sub ∈ sc.subs

/-- A variable that bears the name of a sub and has its return type, in a scope where it came
right after the parameters of the sub. Result slots are such variables, and the state does not tell
whether others are. -/
def ResemblesResultSlot (s : State) (id : CellId) : Prop :=
  ∃ (sub : Sub) (params : List (String × CellId)) (i : Nat) (sc : Scope), s.HasSub sub ∧
    s.env.scopes[i]? = some sc ∧ (sub.name, id) :: params <:+ sc.cells ∧
      params.map Prod.fst = (sub.params.map Parameter.name).reverse ∧
        (s.store.cell id).type = sub.returns

/-- A value that the state can account for. -/
def Holds (s : State) (v : Value) : Prop := s.store.Holds s.Declares v

/-- A value for a place of a type. -/
def Has (s : State) (t : Ty) (v : Value) : Prop := s.store.Has s.Declares t v

/-- States in which everything has its type. -/
structure Typed (s : State) : Prop where
  store : s.store.Typed s.Declares
  bound : ∀ (i : Nat) (sc : Scope), s.env.scopes[i]? = some sc →
    ∀ p ∈ sc.cells, p.2.index < s.store.cells.size
  entries : ∀ (i : Nat) (sc : Scope), s.env.scopes[i]? = some sc →
    ∀ d ∈ sc.enums, ∀ e ∈ d.entries, s.Holds e.2
  slots : ∀ (i : Nat) (c : Cell), s.store.cells[i]? = some c → c.value.isMissing = true →
    s.ResemblesResultSlot ⟨i⟩

variable {s t : State} {type : Ty} {v : Value}

theorem Declares.grows {d : DataDecl} (h : s.Declares d) (hg : s.Grows t) : t.Declares d := by
  obtain ⟨i, sc, hsc, hd⟩ := h
  obtain ⟨sc', hsc', hext⟩ := hg.scopes i sc hsc
  exact ⟨i, sc', hsc', hext.datas.mem hd⟩

theorem HasSub.grows {sub : Sub} (h : s.HasSub sub) (hg : s.Grows t) : t.HasSub sub := by
  obtain ⟨i, sc, hsc, hsub⟩ := h
  obtain ⟨sc', hsc', hext⟩ := hg.scopes i sc hsc
  exact ⟨i, sc', hsc', hext.subs.mem hsub⟩

theorem ResemblesResultSlot.grows {id : CellId} (h : s.ResemblesResultSlot id)
    (hid : id.index < s.store.cells.size) (hg : s.Grows t) : t.ResemblesResultSlot id := by
  obtain ⟨sub, params, i, sc, hsub, hsc, hvars, hnames, htype⟩ := h
  obtain ⟨sc', hsc', hext⟩ := hg.scopes i sc hsc
  exact ⟨sub, params, i, sc', hsub.grows hg, hsc', hvars.trans hext.cells, hnames,
    (hg.store.cell hid).type.trans htype⟩

theorem Holds.grows (h : s.Holds v) (hg : s.Grows t) : t.Holds v :=
  Store.Holds.grows h hg.store fun _ hd => hd.grows hg

theorem Has.grows (h : s.Has type v) (hg : s.Grows t) : t.Has type v :=
  Store.Has.grows h hg.store fun _ hd => hd.grows hg

theorem Has.holds (h : s.Has type v) : s.Holds v := Store.Has.holds h

/-- Typed states differ from others in storage and tables alone. -/
theorem Typed.congr (h : s.Typed) (hstore : t.store = s.store)
    (hscopes : t.env.scopes = s.env.scopes) : t.Typed := by
  have hdeclares : t.Declares = s.Declares := by unfold Declares; rw [hscopes]
  have hslot : ∀ id, s.ResemblesResultSlot id → t.ResemblesResultSlot id := by
    rintro id ⟨sub, params, i, sc, ⟨j, sc', hsc', hsub⟩, hsc, hrest⟩
    exact ⟨sub, params, i, sc, ⟨j, sc', hscopes ▸ hsc', hsub⟩, hscopes ▸ hsc, hstore ▸ hrest⟩
  constructor
  · rw [hstore, hdeclares]
    exact h.store
  · rw [hscopes, hstore]
    exact h.bound
  · unfold Holds
    rw [hscopes, hstore, hdeclares]
    exact h.entries
  · rw [hstore]
    exact fun i c hc hv => hslot _ (h.slots i c hc hv)

/-- Changes of storage that keep all types, and take no value away. -/
theorem Typed.withStore {σ : Store} (h : s.Typed) (hσ : σ.Typed s.Declares)
    (hg : s.store.Grows σ) (hslots : ∀ (i : Nat) (c : Cell), σ.cells[i]? = some c →
      c.value.isMissing = true → ∃ c', s.store.cells[i]? = some c' ∧ c'.value.isMissing = true) :
    Typed { s with store := σ } := by
  have hgrows : s.Grows { s with store := σ } := ⟨hg, .refl Scope.Extends.refl _⟩
  refine ⟨hσ, fun i sc hsc p hp => ?_, fun i sc hsc d hd e he => ?_, fun i c hc hv => ?_⟩
  · exact Nat.lt_of_lt_of_le (h.bound i sc hsc p hp) hg.cells.size_le
  · exact (h.entries i sc hsc d hd e he).grows hgrows
  · obtain ⟨c', hc', hv'⟩ := hslots i c hc hv
    exact (h.slots i c' hc' hv').grows (Array.getElem?_eq_some_iff.mp hc').1 hgrows

/-- Storage in which there are only further arrays. -/
theorem Typed.withAdded {σ : Store} (h : s.Typed) (hσ : σ.Typed s.Declares)
    (hadds : s.store.Adds σ) : Typed { s with store := σ } :=
  h.withStore hσ hadds.grows fun _ c hc hv => ⟨c, hadds.cells ▸ hc, hv⟩

/-- The state after a value has passed the type of a cell and has been put there. -/
theorem Typed.stored {id : CellId} {w : Value} {σ : Store} (h : s.Typed) (hv : s.Holds v)
    (hc : (s.store.cell id).constant = false)
    (hconform : (s.store.cell id).type.conform s.store v = .ok (w, σ)) :
    Typed { s with store := σ.write id w } ∧ s.Grows { s with store := σ.write id w } ∧
      Holds { s with store := σ.write id w } w := by
  have hadds := Ty.conform_adds hconform
  obtain ⟨hσ, hw⟩ := Ty.conform_has hconform h.store hv
  rw [← hadds.cell] at hc hw
  have hg : σ.Grows (σ.write id w) := .write hc hw.fits.present
  refine ⟨?_, ⟨hadds.grows.trans hg, .refl Scope.Extends.refl _⟩,
    hw.holds.grows hg fun _ h => h⟩
  refine (h.withAdded hσ hadds).withStore (hσ.write hc hw) hg fun i c hi hmissing => ?_
  have hi' : (σ.cells.modify id.index fun c => { c with value := w })[i]? = some c := hi
  rw [Array.getElem?_modify] at hi'
  split at hi'
  · obtain ⟨c₀, -, rfl⟩ := Option.map_eq_some_iff.mp hi'
    rw [hw.fits.present] at hmissing
    exact nomatch hmissing
  · exact ⟨c, hi', hmissing⟩

/-- Changes of the tables whose entries are accounted for. -/
theorem Typed.withScopes {env : Environment} (h : s.Typed)
    (hg : Onward Scope.Extends s.env.scopes env.scopes)
    (hvariables : ∀ (i : Nat) (sc : Scope), env.scopes[i]? = some sc →
      ∀ p ∈ sc.cells, p.2.index < s.store.cells.size)
    (hentries : ∀ (i : Nat) (sc : Scope), env.scopes[i]? = some sc →
      ∀ d ∈ sc.enums, ∀ e ∈ d.entries, s.Holds e.2) :
    Typed { s with env := env } := by
  have hgrows : s.Grows { s with env := env } := ⟨.refl _, hg⟩
  refine ⟨?_, hvariables, fun i sc hsc d hd e he => ?_, fun i c hc hv => ?_⟩
  · exact h.store.mono fun d hd => hd.grows hgrows
  · exact (hentries i sc hsc d hd e he).grows hgrows
  · exact (h.slots i c hc hv).grows (Array.getElem?_eq_some_iff.mp hc).1 hgrows

theorem Typed.pushBelow (h : s.Typed) (path : ScopePath) :
    Typed { s with env := s.env.pushBelow path } := by
  have hcases : ∀ (i : Nat) (sc : Scope), (s.env.scopes.push Scope.blank)[i]? = some sc →
      sc = .blank ∨ s.env.scopes[i]? = some sc := by
    intro i sc hsc
    rw [Array.getElem?_push] at hsc
    split at hsc
    · exact .inl (Option.some.inj hsc).symm
    · exact .inr hsc
  refine h.withScopes (.push Scope.Extends.refl _ _) (fun i sc hsc => ?_) (fun i sc hsc => ?_)
  · rcases hcases i sc hsc with rfl | hsc'
    · exact fun _ hp => nomatch hp
    · exact h.bound i sc hsc'
  · rcases hcases i sc hsc with rfl | hsc'
    · exact fun _ hd => nomatch hd
    · exact h.entries i sc hsc'

theorem modifyCurrent_cases {f : Scope → Scope} {i : Nat} {sc : Scope}
    (h : (s.env.modifyCurrent f).scopes[i]? = some sc) :
    s.env.scopes[i]? = some sc ∨ ∃ sc₀, s.env.scopes[i]? = some sc₀ ∧ sc = f sc₀ := by
  have h' : (s.env.scopes.modify s.env.currentId.index f)[i]? = some sc := h
  rw [Array.getElem?_modify] at h'
  split at h'
  · obtain ⟨sc₀, hsc₀, rfl⟩ := Option.map_eq_some_iff.mp h'
    exact .inr ⟨sc₀, hsc₀, rfl⟩
  · exact .inl h'

/-- Declarations of anything but a variable; the entries of an enum must be accounted for. -/
theorem Typed.withCurrent {f : Scope → Scope} (h : s.Typed)
    (hf : ∀ sc : Scope, sc.Extends (f sc)) (hcells : ∀ sc : Scope, (f sc).cells = sc.cells)
    (henums : ∀ sc : Scope, ∀ d ∈ (f sc).enums, d ∈ sc.enums ∨ ∀ e ∈ d.entries, s.Holds e.2) :
    Typed { s with env := s.env.modifyCurrent f } := by
  refine h.withScopes (.modify Scope.Extends.refl fun sc _ => hf sc) (fun i sc hsc => ?_)
    (fun i sc hsc d hd => ?_)
  · rcases modifyCurrent_cases hsc with hsc' | ⟨sc₀, hsc₀, rfl⟩
    · exact h.bound i sc hsc'
    · rw [hcells]
      exact h.bound i sc₀ hsc₀
  · rcases modifyCurrent_cases hsc with hsc' | ⟨sc₀, hsc₀, rfl⟩
    · exact h.entries i sc hsc' d hd
    · exact (henums sc₀ d hd).elim (h.entries i sc₀ hsc₀ d) fun h => h

/-- The state after the declaration of a variable. -/
def withVariable (s : State) (name : String) (c : Cell) : State :=
  { s with
    store := (s.store.newCell c).2
    env := s.env.addVariable name (s.store.newCell c).1 }

theorem withVariable_grows (s : State) (name : String) (c : Cell) :
    s.Grows (s.withVariable name c) := by
  refine ⟨.newCell s.store c, .modify Scope.Extends.refl fun sc _ => ?_⟩
  exact { Scope.Extends.refl sc with cells := List.suffix_cons _ _ }

theorem withVariable_scope {sc : Scope} (name : String) (c : Cell)
    (h : s.env.scopes[s.env.currentId.index]? = some sc) :
    (s.withVariable name c).env.scopes[s.env.currentId.index]? =
      some { sc with cells := (name, (s.store.newCell c).1) :: sc.cells } := by
  show (s.env.scopes.modify s.env.currentId.index fun sc =>
    { sc with cells := (name, (s.store.newCell c).1) :: sc.cells })[_]? = _
  rw [Array.getElem?_modify, if_pos rfl, h]
  rfl

theorem newCell_getElem? {c c' : Cell} {i : Nat} (h : (s.store.newCell c).2.cells[i]? = some c') :
    s.store.cells[i]? = some c' ∨ i = s.store.cells.size ∧ c' = c := by
  have h' : (s.store.cells.push c)[i]? = some c' := h
  rw [Array.getElem?_push] at h'
  split at h'
  · next hi => exact .inr ⟨hi, (Option.some.inj h').symm⟩
  · exact .inl h'

/-- A variable may be declared without a value where it resembles a result slot. -/
theorem Typed.withVariable (h : s.Typed) {name : String} {c : Cell}
    (hc : c.value.isMissing = true ∧
        (s.withVariable name c).ResemblesResultSlot (s.store.newCell c).1 ∨
      s.Has c.type c.value) : (s.withVariable name c).Typed := by
  have hg := s.withVariable_grows name c
  have hsize : (s.store.newCell c).2.cells.size = s.store.cells.size + 1 := Array.size_push _
  refine ⟨?_, fun i sc hsc p hp => ?_, fun i sc hsc d hd e he => ?_, fun i c' hc' hv => ?_⟩
  · exact (h.store.newCell (hc.imp_left And.left)).mono fun d hd => hd.grows hg
  · show p.2.index < (s.store.newCell c).2.cells.size
    rw [hsize]
    rcases modifyCurrent_cases hsc with hsc' | ⟨sc₀, hsc₀, rfl⟩
    · exact Nat.lt_succ_of_lt (h.bound i sc hsc' p hp)
    · rcases List.mem_cons.mp hp with rfl | hp
      · exact Nat.lt_succ_self _
      · exact Nat.lt_succ_of_lt (h.bound i sc₀ hsc₀ p hp)
  · refine Holds.grows (s := s) ?_ hg
    rcases modifyCurrent_cases hsc with hsc' | ⟨sc₀, hsc₀, rfl⟩
    · exact h.entries i sc hsc' d hd e he
    · exact h.entries i sc₀ hsc₀ d hd e he
  · rcases newCell_getElem? hc' with hc' | ⟨rfl, rfl⟩
    · exact (h.slots i c' hc' hv).grows (Array.getElem?_eq_some_iff.mp hc').1 hg
    · rcases hc with ⟨-, hslot⟩ | hhas
      · exact hslot
      · rw [hhas.fits.present] at hv
        exact nomatch hv

theorem Typed.initial (settings : Settings) : (State.initial settings).Typed := by
  have hscope : ∀ (i : Nat) (sc : Scope), #[Scope.blank][i]? = some sc → sc = .blank := by
    intro i sc hsc
    obtain ⟨hi, rfl⟩ := Array.getElem?_eq_some_iff.mp hsc
    have hi' : i = 0 := Nat.lt_one_iff.mp hi
    subst hi'
    rfl
  refine ⟨⟨fun i c hc => ?_, fun i b hb => ?_⟩, fun i sc hsc p hp => ?_,
    fun i sc hsc d hd => ?_, fun i c hc => ?_⟩
  · exact nomatch (Array.getElem?_eq_some_iff.mp hc).1
  · exact nomatch (Array.getElem?_eq_some_iff.mp hb).1
  · rw [hscope i sc hsc] at hp
    exact nomatch hp
  · rw [hscope i sc hsc] at hd
    exact nomatch hd
  · exact nomatch (Array.getElem?_eq_some_iff.mp hc).1

end State

namespace Environment

variable {env : Environment} {name : String}

/-- A hit of a search is in some scope. -/
theorem search_some {α : Type} {find : Scope → Option α} {a : α} (hblank : find .blank = none)
    (h : env.search find = some a) :
    ∃ (i : Nat) (sc : Scope), env.scopes[i]? = some sc ∧ find sc = some a := by
  obtain ⟨id, -, hid⟩ := List.exists_of_findSome?_eq_some h
  unfold Environment.scope at hid
  cases hsc : env.scopes[id.index]? with
  | none =>
    rw [hsc, Option.getD_none, hblank] at hid
    exact nomatch hid
  | some sc =>
    rw [hsc, Option.getD_some] at hid
    exact ⟨id.index, sc, hsc, hid⟩

theorem cell?_some {id : CellId} (h : env.cell? name = some id) :
    ∃ (i : Nat) (sc : Scope), env.scopes[i]? = some sc ∧ (name, id) ∈ sc.cells := by
  obtain ⟨i, sc, hsc, hid⟩ := search_some rfl h
  obtain ⟨l₁, l₂, hvars, -⟩ := List.lookup_eq_some_iff.mp hid
  exact ⟨i, sc, hsc, by rw [hvars]; simp⟩

theorem data?_some {d : DataDecl} (h : env.data? name = some d) :
    ∃ (i : Nat) (sc : Scope), env.scopes[i]? = some sc ∧ d ∈ sc.datas ∧ d.name = name := by
  obtain ⟨i, sc, hsc, hd⟩ := search_some rfl h
  exact ⟨i, sc, hsc, List.mem_of_find?_eq_some hd,
    eq_of_beq (List.find?_some (p := fun d : DataDecl => d.name == name) hd)⟩

theorem enum?_some {d : EnumDecl} (h : env.enum? name = some d) :
    ∃ (i : Nat) (sc : Scope), env.scopes[i]? = some sc ∧ d ∈ sc.enums ∧ d.name = name := by
  obtain ⟨i, sc, hsc, hd⟩ := search_some rfl h
  exact ⟨i, sc, hsc, List.mem_of_find?_eq_some hd,
    eq_of_beq (List.find?_some (p := fun d : EnumDecl => d.name == name) hd)⟩

theorem mem_overloads {sub : Sub} (h : sub ∈ env.overloads name) :
    ∃ (i : Nat) (sc : Scope), env.scopes[i]? = some sc ∧ sub ∈ sc.subs := by
  obtain ⟨id, -, hid⟩ := List.mem_flatMap.mp h
  have hsub := (List.mem_filter.mp hid).1
  unfold Environment.scope at hsub
  cases hsc : env.scopes[id.index]? with
  | none =>
    rw [hsc, Option.getD_none] at hsub
    exact nomatch hsub
  | some sc =>
    rw [hsc, Option.getD_some] at hsub
    exact ⟨id.index, sc, hsc, hsub⟩

end Environment

/-- The entries of an enum carry the values of its declaration. -/
theorem EnumDecl.mem_entryValues {enum : String} {ordinal : Nat}
    {entries : List (String × Value)} {v : Value} (h : v ∈ entryValues enum ordinal entries) :
    ∃ name place w, v = .entry enum name place w ∧ (name, w) ∈ entries := by
  induction entries generalizing ordinal with
  | nil => exact nomatch h
  | cons e rest ih =>
    obtain ⟨name, w⟩ := e
    rcases List.mem_cons.mp h with rfl | h
    · exact ⟨name, ordinal, w, rfl, List.mem_cons_self⟩
    · obtain ⟨name', place, w', hv, hmem⟩ := ih h
      exact ⟨name', place, w', hv, List.mem_cons_of_mem _ hmem⟩

/-- Entries of a declared enum are accounted for, and belong to it. -/
theorem State.Typed.entry_has {s : State} (h : s.Typed) {name : String} {d : EnumDecl}
    (hd : s.env.enum? name = some d) {v : Value} (hv : v ∈ d.values) : s.Has (.enum name) v := by
  obtain ⟨i, sc, hsc, hmem, rfl⟩ := Environment.enum?_some hd
  obtain ⟨entry, place, w, rfl, hw⟩ := EnumDecl.mem_entryValues hv
  exact ⟨h.entries i sc hsc d hmem _ hw, rfl⟩

end BasicScript
