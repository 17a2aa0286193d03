import BasicScript.Run.Assignment

/-! # Growth of a state

Storage and scopes only grow. A cell keeps its type, a constant its value, an
array its element type and its length, and a scope every entry of its tables.
-/

namespace BasicScript

/-- Every entry of one table stands, changed at most as allowed, at the same place of another. -/
def Onward {α : Type} (allowed : α → α → Prop) (xs ys : Array α) : Prop :=
  ∀ (i : Nat) (x : α), xs[i]? = some x → ∃ y, ys[i]? = some y ∧ allowed x y

namespace Onward

variable {α : Type} {allowed : α → α → Prop} {xs ys zs : Array α}

theorem refl (h : ∀ x, allowed x x) (xs : Array α) : Onward allowed xs xs :=
  fun _ x hx => ⟨x, hx, h x⟩

theorem trans (h : ∀ x y z, allowed x y → allowed y z → allowed x z)
    (hxy : Onward allowed xs ys) (hyz : Onward allowed ys zs) : Onward allowed xs zs := by
  intro i x hx
  obtain ⟨y, hy, hxy⟩ := hxy i x hx
  obtain ⟨z, hz, hyz⟩ := hyz i y hy
  exact ⟨z, hz, h x y z hxy hyz⟩

theorem push (h : ∀ x, allowed x x) (xs : Array α) (x : α) : Onward allowed xs (xs.push x) := by
  intro i y hy
  have hi : i < xs.size := (Array.getElem?_eq_some_iff.mp hy).1
  exact ⟨y, by rw [Array.getElem?_push_lt hi]; exact (Array.getElem?_eq_getElem hi).symm.trans hy,
    h y⟩

theorem modify {i : Nat} {f : α → α} (h : ∀ x, allowed x x)
    (hf : ∀ x, xs[i]? = some x → allowed x (f x)) : Onward allowed xs (xs.modify i f) := by
  intro j x hx
  rw [Array.getElem?_modify]
  by_cases hij : i = j
  · subst hij
    exact ⟨f x, by rw [if_pos rfl, hx]; rfl, hf x hx⟩
  · exact ⟨x, by rw [if_neg hij]; exact hx, h x⟩

theorem size_le (h : Onward allowed xs ys) : xs.size ≤ ys.size := by
  refine Nat.le_of_not_lt fun hlt => ?_
  obtain ⟨_, hy, _⟩ := h ys.size xs[ys.size] (Array.getElem?_eq_getElem hlt)
  exact Nat.lt_irrefl _ (Array.getElem?_eq_some_iff.mp hy).1

end Onward

/-- What a cell keeps for ever. -/
structure Cell.Keeps (c c' : Cell) : Prop where
  type : c'.type = c.type
  constant : c'.constant = c.constant
  fixed : c.constant = true → c'.value = c.value
  present : c.value.isMissing = false → c'.value.isMissing = false

/-- What an array keeps for ever. -/
structure ArrayBlock.Keeps (b b' : ArrayBlock) : Prop where
  element : b'.element = b.element
  size : b'.values.size = b.values.size

/-- The tables of one scope hold all that those of another do. -/
structure Scope.Extends (s s' : Scope) : Prop where
  cells : s.cells <:+ s'.cells
  subs : s.subs <+: s'.subs
  datas : s.datas <:+ s'.datas
  enums : s.enums <:+ s'.enums
  aliases : s.aliases <:+ s'.aliases

theorem Cell.Keeps.refl (c : Cell) : c.Keeps c := ⟨rfl, rfl, fun _ => rfl, id⟩

theorem Cell.Keeps.trans {a b c : Cell} (h : a.Keeps b) (h' : b.Keeps c) : a.Keeps c where
  type := h'.type.trans h.type
  constant := h'.constant.trans h.constant
  fixed ha := (h'.fixed (h.constant.trans ha)).trans (h.fixed ha)
  present ha := h'.present (h.present ha)

theorem ArrayBlock.Keeps.refl (b : ArrayBlock) : b.Keeps b := ⟨rfl, rfl⟩

theorem ArrayBlock.Keeps.trans {a b c : ArrayBlock} (h : a.Keeps b) (h' : b.Keeps c) :
    a.Keeps c :=
  ⟨h'.element.trans h.element, h'.size.trans h.size⟩

theorem Scope.Extends.refl (s : Scope) : s.Extends s :=
  ⟨List.suffix_rfl, List.prefix_rfl, List.suffix_rfl, List.suffix_rfl, List.suffix_rfl⟩

theorem Scope.Extends.trans {a b c : Scope} (h : a.Extends b) (h' : b.Extends c) :
    a.Extends c :=
  ⟨h.cells.trans h'.cells, h.subs.trans h'.subs, h.datas.trans h'.datas,
    h.enums.trans h'.enums, h.aliases.trans h'.aliases⟩

/-- Storage that may follow other storage in a run. -/
structure Store.Grows (σ σ' : Store) : Prop where
  cells : Onward Cell.Keeps σ.cells σ'.cells
  arrays : Onward ArrayBlock.Keeps σ.arrays σ'.arrays

namespace Store.Grows

variable {σ σ' σ'' : Store}

theorem refl (σ : Store) : σ.Grows σ :=
  ⟨.refl Cell.Keeps.refl _, .refl ArrayBlock.Keeps.refl _⟩

theorem trans (h : σ.Grows σ') (h' : σ'.Grows σ'') : σ.Grows σ'' :=
  ⟨h.cells.trans (fun _ _ _ => .trans) h'.cells, h.arrays.trans (fun _ _ _ => .trans) h'.arrays⟩

theorem cell (h : σ.Grows σ') {id : CellId} (hid : id.index < σ.cells.size) :
    (σ.cell id).Keeps (σ'.cell id) := by
  obtain ⟨c, hc, hk⟩ := h.cells id.index _ (Array.getElem?_eq_getElem hid)
  simpa only [Store.cell, hc, Array.getElem?_eq_getElem hid, Option.getD_some] using hk

theorem block (h : σ.Grows σ') {id : ArrayId} (hid : id.index < σ.arrays.size) :
    (σ.block id).Keeps (σ'.block id) := by
  obtain ⟨b, hb, hk⟩ := h.arrays id.index _ (Array.getElem?_eq_getElem hid)
  simpa only [Store.block, hb, Array.getElem?_eq_getElem hid, Option.getD_some] using hk

theorem newCell (σ : Store) (c : Cell) : σ.Grows (σ.newCell c).2 :=
  ⟨.push Cell.Keeps.refl _ _, .refl ArrayBlock.Keeps.refl _⟩

theorem newArray (σ : Store) (element : Ty) (values : List Value) :
    σ.Grows (σ.newArray element values).2 :=
  ⟨.refl Cell.Keeps.refl _, .push ArrayBlock.Keeps.refl _ _⟩

theorem write {id : CellId} {v : Value} (hc : (σ.cell id).constant = false)
    (hv : v.isMissing = false) : σ.Grows (σ.write id v) := by
  refine ⟨.modify Cell.Keeps.refl fun c hid => ⟨rfl, rfl, fun hconst => ?_, fun _ => hv⟩,
    .refl ArrayBlock.Keeps.refl _⟩
  rw [Store.cell, hid] at hc
  exact absurd hconst (by simpa using hc)

theorem setElement (σ : Store) (id : ArrayId) (i : Nat) (v : Value) :
    σ.Grows (σ.setElement id i v) :=
  ⟨.refl Cell.Keeps.refl _,
    .modify ArrayBlock.Keeps.refl fun _ _ => ⟨rfl, Array.size_setIfInBounds⟩⟩

end Store.Grows

/-- States of which one may follow the other in a run. -/
structure State.Grows (s t : State) : Prop where
  store : s.store.Grows t.store
  scopes : Onward Scope.Extends s.env.scopes t.env.scopes

theorem State.Grows.refl (s : State) : s.Grows s := ⟨.refl _, .refl Scope.Extends.refl _⟩

theorem State.Grows.trans {s t u : State} (h : s.Grows t) (h' : t.Grows u) : s.Grows u :=
  ⟨h.store.trans h'.store, h.scopes.trans (fun _ _ _ => .trans) h'.scopes⟩

end BasicScript
