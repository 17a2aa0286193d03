import Mathlib.Data.Finset.Sum
import Mathlib.Logic.Relation
import BasicScript.Operators.Binary
import BasicScript.Types.Cast

/-! # Values that are parts of themselves

Text, emptiness and equality follow a value into its parts. A chain of parts
takes up one place of the store after the other, so these views end where no
value is a part of itself, and a view without an end is the sign of a cycle.
-/

namespace BasicScript

namespace Store

variable (σ : Store)

/-- One value is made directly of another: of its elements, or of the values of its fields. An entry
is known by its place in its enum, so the value that it carries is no part of it. -/
inductive Part : Value → Value → Prop where
  | element {id : ArrayId} {v : Value} : v ∈ σ.elements id → Part (.array id) v
  | field {d : DataDecl} {cells : List CellId} {c : CellId} : c ∈ cells →
      Part (.data d cells) (σ.read c)

/-- All values of which a value is made, itself among them. -/
abbrev Parts : Value → Value → Prop := Relation.ReflTransGen σ.Part

/-- Nothing of which the value is made is a part of itself. -/
def Acyclic (v : Value) : Prop := ∀ w, σ.Parts v w → ¬Relation.TransGen σ.Part w w

/-- One value is a part of what another carries in the end. -/
def PayloadPart (v w : Value) : Prop := σ.Part (payload v) w

/-- Some value lies in itself. -/
def Cyclic : Prop := ∃ v, Relation.TransGen σ.PayloadPart v v

/-- A place of the store. -/
abbrev Place := ArrayId ⊕ CellId

/-- The values at a place. -/
def At : Place → Value → Prop
  | .inl id, v => v ∈ σ.elements id
  | .inr c, v => v = σ.read c

/-- A value leads directly to a place. -/
inductive Opens : Value → Place → Prop where
  | array (id : ArrayId) : Opens (.array id) (.inl id)
  | data {d : DataDecl} {cells : List CellId} {c : CellId} : c ∈ cells →
      Opens (.data d cells) (.inr c)

/-- All arrays of the store. -/
def arrayIds : Finset ArrayId :=
  (Finset.range σ.arrays.size).map ⟨ArrayId.mk, fun _ _ => congrArg ArrayId.index⟩

/-- All cells of the store. -/
def cellIds : Finset CellId :=
  (Finset.range σ.cells.size).map ⟨CellId.mk, fun _ _ => congrArg CellId.index⟩

/-- All places of the store. -/
def places : Finset Place := σ.arrayIds.disjSum σ.cellIds

theorem card_arrayIds : σ.arrayIds.card = σ.arrays.size := by
  rw [arrayIds, Finset.card_map, Finset.card_range]

theorem card_cellIds : σ.cellIds.card = σ.cells.size := by
  rw [cellIds, Finset.card_map, Finset.card_range]

theorem card_places : σ.places.card < σ.depth := by
  rw [places, Finset.card_disjSum, card_arrayIds, card_cellIds, depth]
  omega

variable {σ} {v w : Value}

theorem elements_eq_nil {id : ArrayId} (h : id ∉ σ.arrayIds) : σ.elements id = [] := by
  have hsize : σ.arrays.size ≤ id.index := by
    by_contra hlt
    exact h (Finset.mem_map.mpr ⟨_, Finset.mem_range.mpr (Nat.lt_of_not_le hlt), rfl⟩)
  simp [elements, block, Array.getElem?_eq_none hsize]

theorem read_eq_none {c : CellId} (h : c ∉ σ.cellIds) : σ.read c = .none := by
  have hsize : σ.cells.size ≤ c.index := by
    by_contra hlt
    exact h (Finset.mem_map.mpr ⟨_, Finset.mem_range.mpr (Nat.lt_of_not_le hlt), rfl⟩)
  simp [read, cell, Array.getElem?_eq_none hsize]

theorem acyclic_of_parts (h : ∀ w, σ.Part v w → σ.Acyclic w) : σ.Acyclic v := by
  intro u hu hcycle
  rcases hu.cases_head with rfl | ⟨w, hvw, hwu⟩
  · obtain ⟨w, hvw, hwv⟩ := Relation.TransGen.head'_iff.mp hcycle
    exact h w hvw w .refl (.tail' hwv hvw)
  · exact h w hvw u hwu hcycle

theorem Part.payloadPart (h : σ.Part v w) : σ.PayloadPart v w := by
  cases h with
  | element h => exact .element h
  | field h => exact .field h

theorem acyclic_of_not_cyclic (h : ¬σ.Cyclic) (v : Value) : σ.Acyclic v :=
  fun w _ hcycle => h ⟨w, Relation.TransGen.mono (fun _ _ => Part.payloadPart) w w hcycle⟩

theorem part_iff (v w : Value) : σ.Part v w ↔ ∃ p, Opens v p ∧ σ.At p w := by
  constructor
  · rintro (h | h)
    · exact ⟨_, .array _, h⟩
    · exact ⟨_, .data h, rfl⟩
  · rintro ⟨_, ⟨⟩ | hc, h⟩
    · exact .element h
    · cases h
      exact .field hc

/-- Only at the places of the store there is something. -/
theorem At.eq_none {p : Place} (h : σ.At p w) (hp : p ∉ σ.places) : w = .none := by
  cases p with
  | inl id =>
    have helements := elements_eq_nil fun hid => hp (Finset.inl_mem_disjSum.mpr hid)
    simp [At, helements] at h
  | inr c => exact h.trans (read_eq_none fun hc => hp (Finset.inr_mem_disjSum.mpr hc))

section Descent

variable {R : Value → Value → Prop} {opens : Value → Place → Prop} {P : Nat → Value → Prop}

/-- What goes one handle deeper at each step gets through as many handles as places are left, where
no way leads back to a place. -/
theorem descent (hR : ∀ v w, R v w ↔ ∃ p, opens v p ∧ σ.At p w) (hnone : ∀ depth, P depth .none)
    (hstep : ∀ depth v, (∀ w, R v w → P depth w) → P (depth + 1) v)
    (hv : ∀ w, Relation.ReflTransGen R v w → ¬Relation.TransGen R w w) {left : Finset Place}
    (hleft : ∀ u p, Relation.ReflTransGen R v u → opens u p → p ∈ σ.places → p ∈ left)
    {depth : Nat} (hdepth : left.card < depth) : P depth v := by
  induction depth generalizing v left with
  | zero => exact absurd hdepth (Nat.not_lt_zero _)
  | succ depth ih =>
    refine hstep depth v fun w hvw => ?_
    obtain ⟨p, hopens, hat⟩ := (hR v w).mp hvw
    by_cases hp : p ∈ σ.places
    · refine ih (fun u hu => hv u (.head hvw hu))
        (fun u q hu hq hplace => (?_ : q ∈ left.erase p)) ?_
      · refine Finset.mem_erase.mpr ⟨?_, hleft u q (.head hvw hu) hq hplace⟩
        rintro rfl
        exact hv w (.single hvw) (.tail' hu ((hR u w).mpr ⟨q, hq, hat⟩))
      · have hcard := Finset.card_erase_lt_of_mem (hleft v p .refl hopens hp)
        omega
    · exact hat.eq_none hp ▸ hnone depth

theorem Acyclic.descent (h : σ.Acyclic v) (hnone : ∀ depth, P depth .none)
    (hstep : ∀ depth v, (∀ w, σ.Part v w → P depth w) → P (depth + 1) v) {depth : Nat}
    (hdepth : σ.depth ≤ depth) : P depth v :=
  Store.descent part_iff hnone hstep h (fun _ _ _ _ hp => hp)
    (Nat.lt_of_lt_of_le σ.card_places hdepth)

end Descent

section Text

theorem isSome_mapM {α β : Type} {f : α → Option β} {as : List α} :
    (as.mapM f).isSome = true ↔ ∀ a ∈ as, (f a).isSome = true := by
  induction as with
  | nil => simp
  | cons a as ih =>
    rw [List.forall_mem_cons, ← ih, List.mapM_cons]
    cases f a <;> cases as.mapM f <;> simp

theorem acyclic_of_textWithin {depth : Nat} (h : (σ.textWithin depth v).isSome = true) :
    σ.Acyclic v := by
  induction depth generalizing v with
  | zero =>
    refine acyclic_of_parts fun w hw => ?_
    cases hw <;> cases h
  | succ depth ih =>
    refine acyclic_of_parts fun w hw => ih ?_
    cases hw with
    | element hw =>
      rw [textWithin, Option.isSome_map, isSome_mapM] at h
      exact h w hw
    | field hc =>
      rw [textWithin, Option.isSome_map, isSome_mapM] at h
      exact h _ hc

/-- The text of a value ends just where nothing of which the value is made is a part of itself. -/
theorem textEnds_iff : σ.textEnds v = true ↔ σ.Acyclic v := by
  refine ⟨acyclic_of_textWithin, fun h => ?_⟩
  refine h.descent (P := fun depth v => (σ.textWithin depth v).isSome = true)
    (fun depth => ?_) (fun depth v hparts => ?_) le_rfl
  · cases depth <;> rfl
  · cases v with
    | array id =>
      rw [textWithin, Option.isSome_map, isSome_mapM]
      exact fun w hw => hparts w (.element hw)
    | data d cells =>
      rw [textWithin, Option.isSome_map, isSome_mapM]
      exact fun c hc => hparts _ (.field hc)
    | _ => rfl

end Text

section Emptiness

theorem isSome_allM {α : Type} {f : α → Option Bool} {as : List α}
    (h : ∀ a ∈ as, (f a).isSome = true) : (as.allM f).isSome = true := by
  induction as with
  | nil => rfl
  | cons a as ih =>
    rw [List.forall_mem_cons] at h
    obtain ⟨holds, ha⟩ := Option.isSome_iff_exists.mp h.1
    rw [List.allM_cons, ha]
    cases holds with
    | true => exact ih h.2
    | false => rfl

/-- Where no value lies in itself it can be told of all values whether they count as empty. -/
theorem isSome_isEmpty? (h : ¬σ.Cyclic) (v : Value) : (σ.isEmpty? v).isSome = true := by
  refine Store.descent (P := fun depth v => (σ.isEmptyWithin depth v).isSome = true)
    (fun v w => part_iff (payload v) w) (fun depth => ?_) (fun depth v hparts => ?_)
    (fun w _ hcycle => h ⟨w, hcycle⟩) (fun _ _ _ _ hp => hp) σ.card_places
  · unfold isEmptyWithin
    rfl
  · unfold isEmptyWithin
    cases hv : payload v with
    | data d cells =>
      exact isSome_allM fun c hc => hparts _ (hv ▸ .field hc)
    | _ => rfl

end Emptiness

section Equality

variable {α : Type} {f g : α → α → Option Bool} {as bs : List α}

theorem eachSame_cons (f : α → α → Option Bool) (a b : α) (as bs : List α) :
    eachSame f (a :: as) (b :: bs) =
      if as.length = bs.length then
        (f a b).bind fun same => if same then eachSame f as bs else some false
      else some false := by
  unfold eachSame
  by_cases h : as.length = bs.length
  · simp only [List.length_cons, h, if_true, List.zip_cons_cons, List.allM_cons]
    rfl
  · simp only [List.length_cons, Nat.add_right_cancel_iff, h, if_false]

theorem isSome_eachSame (h : ∀ a ∈ as, ∀ b, (f a b).isSome = true) :
    (eachSame f as bs).isSome = true := by
  unfold eachSame
  split
  · exact isSome_allM fun p hp => h _ (List.of_mem_zip hp).1 _
  · rfl

/-- Where no part of one of the values is a part of itself, the values can be compared. -/
theorem Acyclic.isSome_sameWithin (h : σ.Acyclic v) (w : Value) {depth : Nat}
    (hdepth : σ.depth ≤ depth) : (σ.sameWithin depth v w).isSome = true := by
  refine h.descent (P := fun depth v => ∀ w, (σ.sameWithin depth v w).isSome = true)
    (fun depth w => ?_) (fun depth v hparts w => ?_) hdepth w
  · cases depth <;> cases w <;> rfl
  · cases v with
    | array a =>
      cases w with
      | array b =>
        rw [sameWithin]
        split
        · rfl
        · exact isSome_eachSame fun u hu => hparts u (.element hu)
      | _ => rfl
    | data d as =>
      cases w with
      | data e bs =>
        rw [sameWithin]
        split
        · rfl
        · split
          · rfl
          · exact isSome_eachSame fun c hc b => hparts _ (.field hc) _
      | _ => rfl
    | _ => cases w <;> rfl

theorem depth_le_square (σ : Store) : σ.depth ≤ σ.depth * σ.depth :=
  Nat.le_mul_of_pos_left _ (Nat.succ_pos _)

/-- Where no value lies in itself all values can be compared. -/
theorem equalEnds_of_not_cyclic (h : ¬σ.Cyclic) (v w : Value) : σ.equalEnds v w = true := by
  have hsame : (σ.same? v w).isSome = true :=
    (acyclic_of_not_cyclic h v).isSome_sameWithin w σ.depth_le_square
  unfold equalEnds equal?
  split
  · exact isSome_isEmpty? h _
  · exact isSome_isEmpty? h _
  · rfl
  · exact hsame

end Equality

theorem textEnds_of_not_cyclic (h : ¬σ.Cyclic) (v : Value) : σ.textEnds v = true :=
  textEnds_iff.mpr (acyclic_of_not_cyclic h v)

end Store

variable {σ : Store}

theorem BinaryOp.ends_of_not_cyclic (h : ¬σ.Cyclic) (op : BinaryOp) (v w : Value) :
    op.ends σ v w = true := by
  unfold ends
  split
  · exact Store.equalEnds_of_not_cyclic h v w
  · exact Store.equalEnds_of_not_cyclic h v w
  · rw [Store.textEnds_of_not_cyclic h, Store.textEnds_of_not_cyclic h]
    rfl
  · rfl

/-- Of numbers every view ends. -/
theorem BinaryOp.ends_numbers (op : BinaryOp) (σ : Store) (m n : Number) :
    op.ends σ (.number m) (.number n) = true := by
  cases op <;> rfl

namespace Ty

theorem castEachEnds_of_all (f : Store → Value → Option (Value × Store)) {ends : Value → Bool}
    (h : ∀ v, ends v = true) (σ : Store) (vs : List Value) :
    castEachEnds f ends σ vs = true := by
  induction vs generalizing σ with
  | nil => rfl
  | cons v vs ih =>
    rw [castEachEnds, h, Bool.true_and]
    split
    · rfl
    · exact ih _

theorem castEnds_of_not_cyclic (h : ¬σ.Cyclic) (t : Ty) (v : Value) :
    t.castEnds σ v = true := by
  induction t generalizing v with
  | prim p =>
    cases p with
    | string => exact Store.textEnds_of_not_cyclic h v
    | _ => rfl
  | array element size ih | vararg element ih =>
    cases v with
    | array id => exact castEachEnds_of_all _ ih σ _
    | _ => rfl
  | _ => rfl

end Ty

end BasicScript
