import BasicScript.Proofs.Numbers.Decimal
import BasicScript.Scope.Sub

/-! # Signatures

A signature is read back up to the case of letters. Names of types are spelled
without brackets, stars and commas, and lower case brings in none of these. So
the last character of a written type tells how it is put together, the commas
part the types of a list, and the last parenthesis parts them from the name.
-/

namespace BasicScript

/-- Characters that put written types and signatures together. -/
def isMark (c : Char) : Bool := "()[]*,".toList.contains c

/-- Names that can be told from what stands around them. -/
def IsIdentifier (name : String) : Prop :=
  name ≠ "" ∧ name.toList.all (fun c => !isMark c) = true

instance (name : String) : Decidable (IsIdentifier name) :=
  inferInstanceAs (Decidable (_ ∧ _))

section Case

variable {c d : Char}

theorem isMark_toLower (hc : isMark c = false) (hascii : c.toNat < 128) :
    isMark c.toLower = false := by
  have htable : ∀ n < 128, isMark (Char.ofNat n) = false →
      isMark (Char.ofNat n).toLower = false := by decide
  have hlower := htable c.toNat hascii
  rw [Char.ofNat_toNat] at hlower
  exact hlower hc

theorem isMark_iff :
    isMark c = true ↔ c = '(' ∨ c = ')' ∨ c = '[' ∨ c = ']' ∨ c = '*' ∨ c = ',' := by
  simp [isMark]

/-- All marks are among the first characters. -/
theorem isMark_of_le (hc : 94 ≤ c.toNat) : isMark c = false := by
  refine Bool.eq_false_iff.mpr fun hmark => ?_
  rcases isMark_iff.mp hmark with rfl | rfl | rfl | rfl | rfl | rfl <;>
    exact absurd hc (by decide)

theorem isMark_of_isDigit (hc : c.isDigit = true) : isMark c = false := by
  refine Bool.eq_false_iff.mpr fun hmark => ?_
  rcases isMark_iff.mp hmark with rfl | rfl | rfl | rfl | rfl | rfl <;>
    exact absurd hc (by decide)

theorem isMark_ofNat {n : Nat} (hn : 94 ≤ n) : isMark (Char.ofNat n) = false := by
  by_cases hvalid : n.isValidChar
  · rw [Char.ofNat, dif_pos hvalid]
    exact isMark_of_le hn
  · rw [Char.ofNat, dif_neg hvalid]
    decide

/-- No table of lower case leads down to the marks. -/
theorem isMark_lowerChar (hc : isMark c = false) (hd : d ∈ lowerChar c) : isMark d = false := by
  unfold lowerChar at hd
  split at hd
  · next hascii =>
    rw [List.mem_singleton.mp hd]
    exact isMark_toLower hc hascii
  · next hbeyond =>
    have hruns : ∀ r ∈ lowerRuns, 94 ≤ r.first + r.shift := by decide +kernel
    have hexpansions : ∀ e ∈ lowerExpansions, ∀ n ∈ e.2, 94 ≤ n := by decide
    unfold mapCase at hd
    split at hd
    · next n hn =>
      obtain ⟨r, hr, himage⟩ := List.exists_of_findSome?_eq_some hn
      obtain ⟨hrange, rfl⟩ : (r.first ≤ c.toNat ∧ c.toNat ≤ r.last ∧ _) ∧ _ = n := by
        simpa only [CaseRun.map?, Option.ite_none_right_eq_some, Option.some.injEq] using himage
      rw [List.mem_singleton.mp hd]
      have hshift := hruns r hr
      exact isMark_ofNat (by omega)
    · split at hd
      · next ns hns =>
        obtain ⟨n, hn, rfl⟩ := List.mem_map.mp hd
        obtain ⟨l₁, l₂, htable, -⟩ := List.lookup_eq_some_iff.mp hns
        have hmem := htable ▸ List.mem_append_right _ List.mem_cons_self
        exact isMark_ofNat (hexpansions _ hmem n hn)
      · rwa [List.mem_singleton.mp hd]

theorem lowerChar_ne_nil (c : Char) : lowerChar c ≠ [] := by
  have hexpansions : ∀ e ∈ lowerExpansions, e.2 ≠ [] := by decide
  unfold lowerChar
  split
  · exact List.cons_ne_nil _ _
  · unfold mapCase
    split
    · exact List.cons_ne_nil _ _
    · split
      · next ns hns =>
        obtain ⟨l₁, l₂, htable, -⟩ := List.lookup_eq_some_iff.mp hns
        have hne := hexpansions _ (htable ▸ List.mem_append_right _ List.mem_cons_self)
        exact fun hnil => hne (List.map_eq_nil_iff.mp hnil)
      · exact List.cons_ne_nil _ _

theorem isMark_lowerAfter {before cs : List Char} (h : ∀ c ∈ cs, isMark c = false)
    (hd : d ∈ lowerAfter before cs) : isMark d = false := by
  induction cs generalizing before with
  | nil => exact nomatch hd
  | cons c cs ih =>
    rw [List.forall_mem_cons] at h
    rcases List.mem_append.mp hd with himage | hrest
    · split at himage
      · rw [List.mem_singleton.mp himage]
        split <;> decide
      · exact isMark_lowerChar h.1 himage
    · exact ih h.2 hrest

/-- Lower case makes identifiers of identifiers. -/
theorem IsIdentifier.lowerCase {name : String} (h : IsIdentifier name) :
    IsIdentifier (lowerCase name) := by
  obtain ⟨hne, hall⟩ := h
  have hmarks : ∀ c ∈ name.toList, isMark c = false := by simpa using hall
  constructor
  · cases hcs : name.toList with
    | nil => exact absurd (String.toList_eq_nil_iff.mp hcs) hne
    | cons c cs =>
      rw [BasicScript.lowerCase, hcs, ne_eq, ← String.toList_eq_nil_iff, String.toList_ofList,
        lowerAfter]
      simp only [List.append_eq_nil_iff, not_and]
      intro himage
      split at himage
      · exact absurd himage (List.cons_ne_nil _ _)
      · exact absurd himage (lowerChar_ne_nil c)
  · rw [BasicScript.lowerCase, String.toList_ofList, List.all_eq_true]
    intro d hd
    rw [isMark_lowerAfter hmarks hd]
    rfl

end Case

namespace Ty

/-- All data and enum types in a type bear names as wanted. -/
def Spelled (N : String → Prop) : Ty → Prop
  | .data name | .enum name => N name
  | .array element _ | .vararg element => element.Spelled N
  | .inferred | .prim _ => True

/-- The word that a type without parts is written as. -/
def word? : Ty → Option String
  | .inferred => some "any"
  | .prim p => some p.keyword
  | .data name | .enum name => some (lowerCase name)
  | .array .. | .vararg _ => none

/-- Types that are put together in the same way from the same words: no annotation counts as `any`,
and types that are named are told apart by their names in lower case alone. -/
def Alike : Ty → Ty → Prop
  | .array a m, .array b n => m = n ∧ a.Alike b
  | .vararg a, .vararg b => a.Alike b
  | a, b => ∃ word, a.word? = some word ∧ b.word? = some word

/-- What stands in the brackets of an array type. -/
def sizeText : Option Nat → List Char
  | none => []
  | some n => n.repr.toList

variable {a b t : Ty} {m n : Option Nat} {word : String}

theorem toList_array (element : Ty) (size : Option Nat) :
    (Ty.array element size).text.toList =
      element.text.toList ++ '[' :: sizeText size ++ [']'] := by
  cases size <;> simp [text, sizeText, String.toList_append]

theorem toList_vararg (element : Ty) :
    (Ty.vararg element).text.toList = element.text.toList ++ ['*'] := by
  simp [text, String.toList_append]

theorem isDigit_of_mem_sizeText {c : Char} (h : c ∈ sizeText n) : c.isDigit = true := by
  cases n with
  | none => exact nomatch h
  | some n => exact isDigit_of_mem_repr h

theorem sizeText_inj (h : sizeText m = sizeText n) : m = n := by
  have hne : ∀ k : Nat, k.repr.toList ≠ [] := fun k => by
    rw [Nat.toList_repr]
    exact Nat.toDigits_ne_nil
  cases m with
  | none =>
    cases n with
    | none => rfl
    | some n => exact absurd h.symm (hne n)
  | some m =>
    cases n with
    | none => exact absurd h (hne m)
    | some n => rw [Nat.repr_inj.mp (String.toList_inj.mp h)]

theorem text_word (h : t.word? = some word) : t.text = word := by
  cases t with
  | array | vararg => cases h
  | _ => exact Option.some.inj h

/-- A word is an identifier, as the names of types are. -/
theorem Spelled.isIdentifier (ht : t.Spelled IsIdentifier) (h : t.word? = some word) :
    IsIdentifier word := by
  cases t with
  | inferred =>
    cases h
    decide
  | prim p =>
    cases h
    cases p <;> decide
  | data name | enum name =>
    cases h
    exact IsIdentifier.lowerCase ht
  | array | vararg => cases h

theorem isMark_of_mem_word (ht : t.Spelled IsIdentifier) (h : t.word? = some word) {c : Char}
    (hc : c ∈ t.text.toList) : isMark c = false := by
  have hall := (ht.isIdentifier h).2
  rw [text_word h] at hc
  simpa using List.all_eq_true.mp hall c hc

/-- No parentheses and no commas stand in a type. -/
theorem isMark_of_mem_text (ht : t.Spelled IsIdentifier) {c : Char} (hc : c ∈ t.text.toList) :
    isMark c = false ∨ c = '[' ∨ c = ']' ∨ c = '*' := by
  induction t with
  | array element size ih =>
    rw [toList_array] at hc
    simp only [List.mem_append, List.mem_cons, List.not_mem_nil, or_false] at hc
    rcases hc with (hc | rfl | hc) | rfl
    · exact ih ht hc
    · exact .inr (.inl rfl)
    · exact .inl (isMark_of_isDigit (isDigit_of_mem_sizeText hc))
    · exact .inr (.inr (.inl rfl))
  | vararg element ih =>
    rw [toList_vararg] at hc
    simp only [List.mem_append, List.mem_singleton] at hc
    rcases hc with hc | rfl
    · exact ih ht hc
    · exact .inr (.inr (.inr rfl))
  | _ => exact .inl (isMark_of_mem_word ht rfl hc)

theorem text_ne_empty (ht : t.Spelled IsIdentifier) : t.text ≠ "" := by
  rw [ne_eq, ← String.toList_eq_nil_iff]
  cases t with
  | array => rw [toList_array]; simp
  | vararg => rw [toList_vararg]; simp
  | _ =>
    rw [String.toList_eq_nil_iff]
    exact (Spelled.isIdentifier ht rfl).1

/-- What stands before and after the last occurrence of a character. -/
theorem split_last {α : Type} {c : α} {xs ys ds es : List α} (hds : c ∉ ds) (hes : c ∉ es)
    (h : xs ++ c :: ds = ys ++ c :: es) : xs = ys ∧ ds = es := by
  rcases List.append_eq_append_iff.mp h with ⟨more, rfl, hrest⟩ | ⟨more, rfl, hrest⟩
  all_goals
    cases more with
    | nil => exact ⟨by simp, by simpa [eq_comm] using hrest⟩
    | cons d more =>
      obtain ⟨-, rfl⟩ := List.cons.inj hrest
      simp at hds hes

/-- A mark in a text tells that it is no word. -/
theorem no_word_of_mark (ht : t.Spelled IsIdentifier) {c : Char} (hc : c ∈ t.text.toList)
    (hmark : isMark c = true) : t.word? = none := by
  cases hword : t.word? with
  | none => rfl
  | some word =>
    rw [isMark_of_mem_word ht hword hc] at hmark
    cases hmark

theorem Alike.text_eq (h : a.Alike b) : a.text = b.text := by
  have hwords : (∃ word, a.word? = some word ∧ b.word? = some word) → a.text = b.text :=
    fun ⟨word, ha, hb⟩ => (text_word ha).trans (text_word hb).symm
  induction a generalizing b with
  | array element m ih =>
    cases b with
    | array other n =>
      obtain ⟨rfl, halike⟩ := h
      rw [← String.toList_inj, toList_array, toList_array,
        ih halike fun ⟨_, ha, hb⟩ => (text_word ha).trans (text_word hb).symm]
    | _ => exact hwords h
  | vararg element ih =>
    cases b with
    | vararg other =>
      rw [← String.toList_inj, toList_vararg, toList_vararg,
        ih h fun ⟨_, ha, hb⟩ => (text_word ha).trans (text_word hb).symm]
    | _ => exact hwords h
  | _ => exact hwords h

theorem alike_of_text (ha : a.Spelled IsIdentifier) (hb : b.Spelled IsIdentifier)
    (h : a.text.toList = b.text.toList) : a.Alike b := by
  have hsize : ∀ n, '[' ∉ sizeText n := fun n hmem =>
    absurd (isDigit_of_mem_sizeText hmem) (by decide)
  have hlast : ']' ≠ '*' := by decide
  -- by the last character, which in a word is none of these
  induction a generalizing b with
  | array element m ih =>
    rw [toList_array] at h
    cases b with
    | array other n =>
      rw [toList_array] at h
      obtain ⟨helement, hsizes⟩ := split_last (hsize m) (hsize n) (List.append_cancel_right h)
      exact ⟨sizeText_inj hsizes, ih ha hb helement⟩
    | vararg other =>
      rw [toList_vararg] at h
      exact absurd (List.cons.inj (List.append_inj_right' h rfl)).1 hlast
    | _ => cases no_word_of_mark hb (c := '[') (by rw [← h]; simp) rfl
  | vararg element ih =>
    rw [toList_vararg] at h
    cases b with
    | array other n =>
      rw [toList_array] at h
      exact absurd (List.cons.inj (List.append_inj_right' h rfl)).1 hlast.symm
    | vararg other =>
      rw [toList_vararg] at h
      exact ih ha hb (List.append_cancel_right h)
    | _ => cases no_word_of_mark hb (c := '*') (by rw [← h]; simp) rfl
  | _ =>
    cases b with
    | array other n =>
      rw [toList_array] at h
      cases no_word_of_mark ha (c := '[') (by rw [h]; simp) rfl
    | vararg other =>
      rw [toList_vararg] at h
      cases no_word_of_mark ha (c := '*') (by rw [h]; simp) rfl
    | _ => exact ⟨_, rfl, congrArg some (String.toList_inj.mp h).symm⟩

end Ty

section Signature

variable {ts us : List Ty} {name other : String}

theorem mem_intercalate {c : Char} {separator : List Char} {xs : List (List Char)}
    (h : c ∈ separator.intercalate xs) : c ∈ separator ∨ ∃ x ∈ xs, c ∈ x := by
  induction xs with
  | nil => exact nomatch h
  | cons x xs ih =>
    cases xs with
    | nil =>
      rw [List.intercalate_singleton] at h
      exact .inr ⟨x, List.mem_cons_self, h⟩
    | cons y ys =>
      rw [List.intercalate_cons_cons, List.mem_append, List.mem_append] at h
      rcases h with (h | h) | h
      · exact .inr ⟨x, List.mem_cons_self, h⟩
      · exact .inl h
      · exact (ih h).imp_right fun ⟨z, hz, hc⟩ => ⟨z, List.mem_cons_of_mem _ hz, hc⟩

/-- Texts between commas. -/
theorem commas_inj {xs ys : List String} (hx : ∀ x ∈ xs, x ≠ "" ∧ ',' ∉ x.toList)
    (hy : ∀ y ∈ ys, y ≠ "" ∧ ',' ∉ y.toList) (h : ",".intercalate xs = ",".intercalate ys) :
    xs = ys := by
  have hparts : ∀ zs : List String, zs ≠ [] → (∀ z ∈ zs, z ≠ "" ∧ ',' ∉ z.toList) →
      (",".intercalate zs).toList.splitOn ',' = zs.map String.toList ∧
        ",".intercalate zs ≠ "" := by
    intro zs hne hzs
    have hsplit : (",".intercalate zs).toList.splitOn ',' = zs.map String.toList := by
      rw [String.toList_intercalate]
      exact List.splitOn_intercalate ',' (by simpa using fun z hz => (hzs z hz).2) (by simpa)
    refine ⟨hsplit, fun hempty => ?_⟩
    rw [hempty] at hsplit
    -- a list that is written as nothing has one text, and that one is empty
    obtain ⟨z, rest, rfl⟩ := List.exists_cons_of_ne_nil hne
    obtain ⟨hz, -⟩ := List.cons.inj hsplit
    exact (hzs z List.mem_cons_self).1 (String.toList_eq_nil_iff.mp hz.symm)
  by_cases hxs : xs = []
  · by_cases hys : ys = []
    · rw [hxs, hys]
    · rw [hxs, String.intercalate_nil] at h
      exact absurd h.symm (hparts ys hys hy).2
  · by_cases hys : ys = []
    · rw [hys, String.intercalate_nil] at h
      exact absurd h (hparts xs hxs hx).2
    · have hsame := (hparts xs hxs hx).1.symm.trans (h ▸ (hparts ys hys hy).1)
      exact List.map_injective_iff.mpr (fun _ _ => String.toList_inj.mp) hsame

/-- Lists of types are written in the same way exactly where the types are alike one by one. -/
theorem types_eq_iff (ht : ∀ t ∈ ts, t.Spelled IsIdentifier)
    (hu : ∀ u ∈ us, u.Spelled IsIdentifier) :
    ",".intercalate (ts.map Ty.text) = ",".intercalate (us.map Ty.text) ↔
      List.Forall₂ Ty.Alike ts us := by
  have hparts : ∀ vs : List Ty, (∀ v ∈ vs, v.Spelled IsIdentifier) →
      ∀ x ∈ vs.map Ty.text, x ≠ "" ∧ ',' ∉ x.toList := by
    intro vs hvs x hx
    obtain ⟨v, hv, rfl⟩ := List.mem_map.mp hx
    refine ⟨Ty.text_ne_empty (hvs v hv), fun hcomma => ?_⟩
    rcases Ty.isMark_of_mem_text (hvs v hv) hcomma with hmark | hbracket
    · exact absurd hmark (by decide)
    · exact absurd hbracket (by decide)
  constructor
  · intro h
    have hsame := commas_inj (hparts ts ht) (hparts us hu) h
    induction ts generalizing us with
    | nil =>
      obtain rfl := List.map_eq_nil_iff.mp hsame.symm
      exact .nil
    | cons t ts ih =>
      obtain ⟨u, us, rfl, htext, hrest⟩ := List.map_eq_cons_iff.mp hsame.symm
      rw [List.forall_mem_cons] at ht hu
      refine .cons (Ty.alike_of_text ht.1 hu.1 (congrArg String.toList htext.symm)) ?_
      exact ih ht.2 hu.2 (by rw [hrest]) hrest.symm
  · intro h
    have hsame : ts.map Ty.text = us.map Ty.text := by
      induction h with
      | nil => rfl
      | cons halike _ ih =>
        rw [List.forall_mem_cons] at ht hu
        rw [List.map_cons, List.map_cons, halike.text_eq, ih ht.2 hu.2]
    rw [hsame]

/-- A signature tells its types, and the name in lower case. -/
theorem signatureText_eq_iff (ht : ∀ t ∈ ts, t.Spelled IsIdentifier)
    (hu : ∀ u ∈ us, u.Spelled IsIdentifier) : signatureText name ts = signatureText other us ↔
      lowerCase name = lowerCase other ∧ List.Forall₂ Ty.Alike ts us := by
  rw [← types_eq_iff ht hu]
  constructor
  · intro h
    have hparens : ∀ vs : List Ty, (∀ v ∈ vs, v.Spelled IsIdentifier) →
        '(' ∉ (",".intercalate (vs.map Ty.text)).toList ++ [')'] := by
      intro vs hvs hmem
      rcases List.mem_append.mp hmem with htext | hlast
      · rw [String.toList_intercalate] at htext
        rcases mem_intercalate htext with hcomma | ⟨x, hx, hparen⟩
        · exact absurd hcomma (by decide)
        · obtain ⟨_, htext, rfl⟩ := List.mem_map.mp hx
          obtain ⟨v, hmem, rfl⟩ := List.mem_map.mp htext
          exact absurd (Ty.isMark_of_mem_text (hvs v hmem) hparen) (by decide)
      · exact absurd hlast (by decide)
    have hlists : ∀ (name : String) (vs : List Ty), (signatureText name vs).toList =
        (lowerCase name).toList ++ '(' :: ((",".intercalate (vs.map Ty.text)).toList ++ [')']) := by
      intro name vs
      simp [signatureText, String.toList_append]
    have hsame := congrArg String.toList h
    rw [hlists, hlists] at hsame
    obtain ⟨hname, htypes⟩ := Ty.split_last (hparens ts ht) (hparens us hu) hsame
    exact ⟨String.toList_inj.mp hname, String.toList_inj.mp (List.append_cancel_right htypes)⟩
  · rintro ⟨hname, htypes⟩
    rw [signatureText, signatureText, hname, htypes]

end Signature

end BasicScript
