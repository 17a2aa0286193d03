import BasicScript.Proofs.Numbers.Whole
import BasicScript.Proofs.Types.Agreement
import BasicScript.Proofs.Types.Idempotence
import BasicScript.Proofs.Types.Storage

/-! # Common types

The type that the elements of an array literal share is a join: types fall
into families, within a family the join is exact, and across families it is
`any`. So the order and the grouping of elements do not matter, and each
element that is typed as it shows passes a place of the shared type.
-/

namespace BasicScript

namespace Ty

variable {a b x y : Ty} {j k : NumericKind} {n m : Option Nat}

@[simp] theorem common_self (a : Ty) : a.common a = a := by
  unfold common
  rw [if_pos rfl]

theorem common_ofKind (j k : NumericKind) : (ofKind j).common (ofKind k) = ofKind (j.wider k) := by
  cases j <;> cases k <;> rfl

theorem kind?_eq (h : a.kind? = some k) : a = ofKind k := by
  cases a with
  | prim p => cases p <;> cases h <;> rfl
  | _ => cases h

theorem ofKind_inj (h : ofKind j = ofKind k) : j = k := by
  cases j <;> cases k <;> first | rfl | cases h

/-- Arrays are joined by their elements; a size stays where nothing differs. -/
theorem common_array (x y : Ty) (n m : Option Nat) : (array x n).common (array y m) =
    array (x.common y) (if x = y ∧ n = m then n else none) := by
  by_cases h : x = y ∧ n = m
  · obtain ⟨rfl, rfl⟩ := h
    simp only [common_self, and_self, if_true]
  · rw [if_neg h]
    conv => lhs; unfold common
    rw [if_neg (by simpa using h)]
    rfl

/-- The widest type that a type is joined with in earnest: types of one family have no other type
of a different family above them than `any`. -/
def family : Ty → Ty
  | .prim p => if p.kind?.isSome then .prim .double else .prim p
  | .array _ _ => .array (.prim .any) none
  | t => t

theorem family_ofKind (k : NumericKind) : (ofKind k).family = .prim .double := by
  cases k <;> rfl

theorem kind_of_family (h : a.family = .prim .double) : ∃ k, a = ofKind k := by
  cases a with
  | prim p =>
    cases p with
    | byte => exact ⟨.byte, rfl⟩
    | short => exact ⟨.short, rfl⟩
    | int => exact ⟨.int, rfl⟩
    | long => exact ⟨.long, rfl⟩
    | float => exact ⟨.float, rfl⟩
    | double => exact ⟨.double, rfl⟩
    | _ => cases h
  | _ => cases h

theorem array_of_family (h : a.family = .array (.prim .any) none) : ∃ x n, a = .array x n := by
  cases a with
  | array x n => exact ⟨x, n, rfl⟩
  | prim p => cases p <;> cases h
  | _ => cases h

theorem family_rigid (hkind : a.family ≠ .prim .double)
    (harray : a.family ≠ .array (.prim .any) none) : a.family = a := by
  cases a with
  | array x n => exact absurd rfl harray
  | prim p => cases p <;> first | rfl | exact absurd rfl hkind
  | _ => rfl

/-- Of a family are the numeric kinds, the arrays, or one type alone. -/
theorem family_cases (a : Ty) :
    (∃ k, a = ofKind k ∧ ∀ b, b.family = a.family → ∃ j, b = ofKind j) ∨
    (∃ x n, a = array x n ∧ ∀ b, b.family = a.family → ∃ y m, b = array y m) ∨
    ∀ b, b.family = a.family → b = a := by
  by_cases hkind : a.family = .prim .double
  · obtain ⟨k, hk⟩ := kind_of_family hkind
    exact .inl ⟨k, hk, fun b hb => kind_of_family (hb.trans hkind)⟩
  by_cases harray : a.family = .array (.prim .any) none
  · obtain ⟨x, n, hx⟩ := array_of_family harray
    exact .inr (.inl ⟨x, n, hx, fun b hb => array_of_family (hb.trans harray)⟩)
  · refine .inr (.inr fun b hb => ?_)
    rw [← family_rigid hkind harray, ← hb, family_rigid (hb ▸ hkind) (hb ▸ harray)]

/-- Across families there is nothing but `any`. -/
theorem common_apart (h : a.family ≠ b.family) : a.common b = .prim .any := by
  have hne : a ≠ b := fun hab => h (congrArg family hab)
  unfold common
  rw [if_neg hne]
  split
  · next j k hj hk =>
    refine absurd ?_ h
    rw [kind?_eq hj, kind?_eq hk, family_ofKind, family_ofKind]
  · split
    · exact absurd rfl h
    · rfl

/-- Within a family the join stays in it. -/
theorem common_family (h : a.family = b.family) : (a.common b).family = b.family := by
  rcases family_cases b with ⟨k, rfl, hall⟩ | ⟨y, m, rfl, hall⟩ | hall
  · obtain ⟨j, rfl⟩ := hall a h
    rw [common_ofKind, family_ofKind, family_ofKind]
  · obtain ⟨x, n, rfl⟩ := hall a h
    rw [common_array]
    rfl
  · rw [hall a h, common_self]

theorem any_common (a : Ty) : (prim .any).common a = .prim .any := by
  by_cases h : (prim .any).family = a.family
  · rcases family_cases (prim .any) with ⟨k, hk, -⟩ | ⟨x, n, hx, -⟩ | hall
    · cases k <;> cases hk
    · cases hx
    · rw [hall a h.symm, common_self]
  · exact common_apart h

theorem common_comm (a b : Ty) : a.common b = b.common a := by
  induction a using element_induction generalizing b with
  | h a ih =>
    by_cases h : a.family = b.family
    · rcases family_cases b with ⟨k, rfl, hall⟩ | ⟨y, m, rfl, hall⟩ | hall
      · obtain ⟨j, rfl⟩ := hall a h
        rw [common_ofKind, common_ofKind, NumericKind.wider_comm]
      · obtain ⟨x, n, rfl⟩ := hall a h
        rw [common_array, common_array, ih x rfl y]
        congr 1
        by_cases hsame : x = y ∧ n = m
        · rw [if_pos hsame, if_pos ⟨hsame.1.symm, hsame.2.symm⟩, hsame.2]
        · rw [if_neg hsame, if_neg fun hs => hsame ⟨hs.1.symm, hs.2.symm⟩]
      · rw [hall a h]
    · rw [common_apart h, common_apart (Ne.symm h)]

theorem common_any (a : Ty) : a.common (.prim .any) = .prim .any := by
  rw [common_comm, any_common]

theorem common_assoc (a b c : Ty) : (a.common b).common c = a.common (b.common c) := by
  induction a using element_induction generalizing b c with
  | h a ih =>
    by_cases hab : a.family = b.family
    · by_cases hbc : b.family = c.family
      · rcases family_cases b with ⟨k, rfl, hall⟩ | ⟨y, m, rfl, hall⟩ | hall
        · obtain ⟨j, rfl⟩ := hall a hab
          obtain ⟨l, rfl⟩ := hall c hbc.symm
          simp only [common_ofKind, NumericKind.wider_assoc]
        · obtain ⟨x, n, rfl⟩ := hall a hab
          obtain ⟨z, l, rfl⟩ := hall c hbc.symm
          simp only [common_array, ih x rfl y z]
          congr 1
          -- a size survives exactly where all three arrays agree
          grind [common_self]
        · rw [hall a hab, hall c hbc.symm, common_self]
      · rw [common_apart hbc, common_any]
        exact common_apart ((common_family hab).trans_ne hbc)
    · rw [common_apart hab, any_common]
      by_cases hbc : b.family = c.family
      · refine (common_apart ?_).symm
        rw [common_family hbc, ← hbc]
        exact hab
      · rw [common_apart hbc, common_any]

/-! ## Types above a type -/

/-- What a type can be joined to without a further change. -/
theorem above_cases (h : a.common b = b) :
    b = a ∨ b = .prim .any ∨ (∃ j k, a = ofKind j ∧ b = ofKind k ∧ j ≤ k) ∨
      ∃ x n y, a = array x n ∧ b = array y none ∧ x.common y = y := by
  by_cases hfamily : b.family = a.family
  · rcases family_cases a with ⟨j, rfl, hall⟩ | ⟨x, n, rfl, hall⟩ | hall
    · obtain ⟨k, rfl⟩ := hall b hfamily
      rw [common_ofKind] at h
      exact .inr (.inr (.inl ⟨j, k, rfl, rfl, NumericKind.le_of_wider (ofKind_inj h)⟩))
    · obtain ⟨y, m, rfl⟩ := hall b hfamily
      rw [common_array, array.injEq] at h
      by_cases hsame : x = y ∧ n = m
      · exact .inl (by rw [hsame.1, hsame.2])
      · rw [if_neg hsame] at h
        exact .inr (.inr (.inr ⟨x, n, y, rfl, by rw [← h.2], h.1⟩))
    · exact .inl (hall b hfamily)
  · rw [common_apart (Ne.symm hfamily)] at h
    exact .inr (.inl h.symm)

theorem below_kind (h : a.common (ofKind k) = ofKind k) : ∃ j, a = ofKind j ∧ j ≤ k := by
  rcases above_cases h with rfl | hany | ⟨i, j, rfl, hj, hij⟩ | ⟨x, n, y, -, hy, -⟩
  · exact ⟨k, rfl, Nat.le_refl _⟩
  · cases k <;> cases hany
  · exact ⟨i, rfl, ofKind_inj hj ▸ hij⟩
  · cases k <;> cases hy

theorem below_array (h : a.common (array y m) = array y m) :
    ∃ x n, a = array x n ∧ x.common y = y := by
  rcases above_cases h with rfl | hany | ⟨j, k, -, hk, -⟩ | ⟨x, n, z, rfl, hz, hxz⟩
  · exact ⟨y, m, rfl, common_self y⟩
  · cases hany
  · cases k <;> cases hk
  · cases hz
    exact ⟨x, n, rfl, hxz⟩

variable {σ : Store} {v : Value} {id : ArrayId} {element : Ty}

/-- A place takes a value as it is for the coercion and for the test. -/
theorem conform_unchanged :
    a.conform σ v = .ok (v, σ) ↔ a.coerce σ v = .same ∧ a.check σ v = .ok () := by
  rw [conform_ok]
  refine and_congr_left fun _ => ⟨fun h => coerce_settles h (.refl σ), fun h => ?_⟩
  rw [h, Coerced.result?]

/-- An array that is taken as it is holds elements that are taken as they are. -/
theorem conform_unchanged_elements (ha : a.element? = some element)
    (hany : element.acceptsAnything = false)
    (h : a.conform σ (.array id) = .ok (.array id, σ)) :
    ∀ u ∈ σ.elements id, element.conform σ u = .ok (u, σ) := by
  obtain ⟨hsame, hcheck⟩ := conform_unchanged.mp h
  rw [coerce_array ha, coerceElements_same_iff hany] at hsame
  have hchecks := ((check_array ha σ id).mp hcheck).2.resolve_left
    (by rw [hany]; exact Bool.false_ne_true)
  exact fun u hu => conform_unchanged.mpr ⟨hsame.2 u hu, hchecks u hu⟩

theorem check_number (σ : Store) {n : Number} (h : n.kind = k) :
    (ofKind k).check σ (.number n) = .ok () := by
  subst h
  exact (check_scalar (τ := σ) rfl).mpr
    (Primitive.admits_number (Primitive.kind?_primitive n.kind))

theorem number_of_check (h : (ofKind k).check σ v = .ok ()) : ∃ n, v = .number n ∧ n.kind = k := by
  have hfits : σ.Fits (.prim k.primitive) v := (check_scalar rfl).mp h
  cases v with
  | empty => exact hfits.elim
  | _ => exact Primitive.admits_kind (Primitive.kind?_primitive k) hfits

/-- A number goes up to every wider kind. -/
theorem coerce_ofKind (σ : Store) {n : Number} (h : n.kind ≤ k) :
    ((ofKind k).coerce σ (.number n)).result? σ (.number n) =
      some (.number (n.convert k), σ) := by
  simp only [ofKind, coerce, Primitive.kind?_primitive, coerceNumber]
  by_cases hkind : n.kind = k
  · rw [if_pos hkind, ← hkind, Number.convert_kind, Coerced.result?]
  · rw [if_neg hkind, Number.widen?, if_pos h, Coerced.result?]

/-- A number is taken by the places for its kind and for the wider ones. -/
theorem accepts_number {n : Number} (h : n.kind ≤ k) : (ofKind k).Accepts σ (.number n) :=
  ⟨_, σ, conform_ok.mpr ⟨coerce_ofKind σ h, check_number σ (Number.kind_convert n k)⟩⟩

/-- Above a type for anything are such types only. -/
theorem acceptsAnything_above (ha : a.acceptsAnything = true) (h : a.common b = b) :
    b.acceptsAnything = true := by
  rcases above_cases h with rfl | rfl | ⟨j, k, rfl, -, -⟩ | ⟨x, n, y, rfl, -, -⟩
  · exact ha
  · rfl
  · cases j <;> cases ha
  · cases ha

/-- What a type takes as it is, is taken by the places of all types above it. -/
theorem accepts_above (hσ : σ.Closed) (h : a.common b = b) (hv : a.conform σ v = .ok (v, σ)) :
    b.Accepts σ v := by
  induction a using element_induction generalizing b v with
  | h a ih =>
    rcases above_cases h with rfl | rfl | ⟨j, k, rfl, rfl, hjk⟩ | ⟨x, n, y, rfl, rfl, hxy⟩
    · exact ⟨v, σ, hv⟩
    · exact accepts_of_check (check_of_any rfl (conform_present hv)) hσ
    · obtain ⟨n, rfl, rfl⟩ := number_of_check (conform_ok.mp hv).2
      exact accepts_number hjk
    · obtain ⟨id, rfl⟩ := check_is_array rfl (conform_ok.mp hv).2
      refine .of_elements rfl (accepts_adds y) hσ (fun _ hn => nomatch hn) ?_
      cases hx : x.acceptsAnything with
      | true => exact .inl (acceptsAnything_above hx hxy)
      | false =>
        exact .inr fun u hu => ih x rfl hxy (conform_unchanged_elements rfl hx hv u hu)

/-! ## The join of a row of types -/

instance : Std.Associative common := ⟨common_assoc⟩

/-- The type that the elements of an array literal share, if they have the given types. -/
def joint : List Ty → Ty
  | [] => .prim .any
  | t :: ts => ts.foldl common t

theorem joint_cons {ts : List Ty} (h : ts ≠ []) (t : Ty) :
    joint (t :: ts) = t.common (joint ts) := by
  cases ts with
  | nil => exact absurd rfl h
  | cons u us => exact List.foldl_assoc

theorem joint_append {ts us : List Ty} (hts : ts ≠ []) (hus : us ≠ []) :
    joint (ts ++ us) = (joint ts).common (joint us) := by
  induction ts with
  | nil => exact absurd rfl hts
  | cons t ts ih =>
    rw [List.cons_append, joint_cons (by simp [hus])]
    cases ts with
    | nil => rfl
    | cons u ts => rw [ih (List.cons_ne_nil _ _), joint_cons (List.cons_ne_nil _ _), common_assoc]

/-- The order does not matter. -/
theorem joint_perm {ts us : List Ty} (h : ts.Perm us) : joint ts = joint us := by
  induction h with
  | nil => rfl
  | @cons t ts us hperm ih =>
    by_cases hts : ts = []
    · subst hts
      rw [hperm.nil_eq]
    · have hus : us ≠ [] := fun hus => hts (hus ▸ hperm).eq_nil
      rw [joint_cons hts, joint_cons hus, ih]
  | swap t u ts =>
    show ts.foldl common (u.common t) = ts.foldl common (t.common u)
    rw [common_comm]
  | trans _ _ ih ih' => exact ih.trans ih'

/-- The grouping does not matter. -/
theorem joint_flatten {groups : List (List Ty)} (h : ∀ g ∈ groups, g ≠ []) :
    joint (groups.map joint) = joint groups.flatten := by
  induction groups with
  | nil => rfl
  | cons g groups ih =>
    rw [List.forall_mem_cons] at h
    rw [List.map_cons, List.flatten_cons]
    cases groups with
    | nil => rw [List.flatten_nil, List.append_nil]; rfl
    | cons g' groups =>
      have hflat : (g' :: groups).flatten ≠ [] := by
        simp [h.2 g' List.mem_cons_self]
      rw [joint_cons (by simp), joint_append h.1 hflat, ih h.2]

/-- The join is above each of the types. -/
theorem common_joint {ts : List Ty} {t : Ty} (h : t ∈ ts) : t.common (joint ts) = joint ts := by
  induction ts with
  | nil => cases h
  | cons u us ih =>
    by_cases hus : us = []
    · subst hus
      rw [List.mem_singleton.mp h]
      exact common_self u
    · rw [joint_cons hus]
      rcases List.mem_cons.mp h with rfl | h
      · rw [← common_assoc, common_self]
      · rw [← common_assoc, common_comm t u, common_assoc, ih h]

end Ty

namespace Store

/-- A value that is no array, or an array whose elements pass its tag as they are. -/
def WellTagged (σ : Store) : Value → Prop
  | .array id => ∀ u ∈ σ.elements id, (σ.block id).element.conform σ u = .ok (u, σ)
  | _ => True

variable {σ : Store} {v : Value} {t : Ty}

theorem typeOf?_some (h : v.isMissing = false) : ∃ t, σ.typeOf? v = some t := by
  cases v with
  | empty => cases h
  | _ => exact ⟨_, rfl⟩

/-- A value is taken as it is by the places of the type that it shows. -/
theorem WellTagged.conform (h : σ.WellTagged v) (ht : σ.typeOf? v = some t) :
    t.conform σ v = .ok (v, σ) := by
  cases v with
  | array id =>
    cases ht
    have hcheck : (Ty.array (σ.block id).element none).check σ (.array id) = .ok () :=
      (Ty.check_array rfl σ id).mpr ⟨(fun _ hn => nomatch hn),
        .inr fun u hu => (Ty.conform_unchanged.mp (h u hu)).2⟩
    refine Ty.conform_unchanged.mpr ⟨?_, hcheck⟩
    rw [Ty.coerce_array rfl]
    cases hany : (σ.block id).element.acceptsAnything with
    | true => rw [Ty.coerceElements, if_pos hany]
    | false =>
      exact (Ty.coerceElements_same_iff hany).mpr
        ⟨rfl, fun u hu => (Ty.conform_unchanged.mp (h u hu)).1⟩
  | empty => cases ht
  | number n =>
    cases ht
    exact Ty.conform_unchanged.mpr ⟨Ty.coerce_number (Primitive.kind?_primitive _),
      Ty.check_number σ rfl⟩
  | data d cells =>
    cases ht
    exact Ty.conform_unchanged.mpr ⟨rfl, if_pos rfl⟩
  | entry enum name place value =>
    cases ht
    exact Ty.conform_unchanged.mpr ⟨rfl, if_pos rfl⟩
  | _ =>
    cases ht
    exact Ty.conform_unchanged.mpr ⟨rfl, rfl⟩

/-- Each of a row of values passes the join of the types that they show. -/
theorem accepts_joint (hσ : σ.Closed) {vs : List Value}
    (hvs : ∀ v ∈ vs, v.isMissing = false ∧ σ.WellTagged v) :
    ∀ v ∈ vs, (Ty.joint (vs.filterMap σ.typeOf?)).Accepts σ v := by
  intro v hv
  obtain ⟨hpresent, htagged⟩ := hvs v hv
  obtain ⟨t, ht⟩ := typeOf?_some (σ := σ) hpresent
  exact Ty.accepts_above hσ (Ty.common_joint (List.mem_filterMap.mpr ⟨v, hv, ht⟩))
    (htagged.conform ht)

end Store

end BasicScript
