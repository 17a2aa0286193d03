import BasicScript.Eval.Call
import Mathlib.Data.List.Sort
import Mathlib.Data.List.TakeWhile

/-! # Order of overloads

The parameters of an overload are those that take one argument each, and
perhaps one more for the tail. Overloads are tried by their numbers of
parameters; between equal numbers the order of the candidates decides.
-/

namespace BasicScript

namespace Sub

/-- The parameters are those that take one argument each, and that of the tail. -/
theorem params_fixed (sub : Sub) : sub.params = sub.fixed ++ sub.vararg?.toList := by
  unfold Sub.fixed
  cases hv : sub.vararg? with
  | none => simp only [Option.isSome_none, Bool.false_eq_true, if_false, Option.toList_none,
      List.append_nil]
  | some p =>
    have hlast : sub.params.getLast? = some p := (Option.filter_eq_some_iff.mp hv).1
    obtain ⟨init, hinit⟩ := List.getLast?_eq_some_iff.mp hlast
    simp only [Option.isSome_some, if_true, Option.toList_some, hinit, List.dropLast_concat]

theorem vararg_type {sub : Sub} {p : Parameter} (h : sub.vararg? = some p) :
    ∃ element, p.type = .vararg element := by
  have hp : p.isVararg = true := (Option.filter_eq_some_iff.mp h).2
  unfold Parameter.isVararg at hp
  split at hp
  · next element helement => exact ⟨element, helement⟩
  · exact nomatch hp

/-- Whether an overload may come before another in the order of trial. -/
def NoLonger (a b : Sub) : Prop := a.params.length ≤ b.params.length

instance : DecidableRel NoLonger := fun a b =>
  inferInstanceAs (Decidable (a.params.length ≤ b.params.length))

instance : Std.Total NoLonger := ⟨fun a b => Nat.le_total a.params.length b.params.length⟩

instance : IsTrans Sub NoLonger := ⟨fun _ _ _ => Nat.le_trans⟩

theorem insertByArity_eq (sub : Sub) (subs : List Sub) :
    insertByArity sub subs = subs.orderedInsert NoLonger sub := by
  induction subs with
  | nil => rfl
  | cons other rest ih =>
    rw [insertByArity, List.orderedInsert_cons, ih]
    rfl

theorem byArity_eq (subs : List Sub) : byArity subs = subs.insertionSort NoLonger := by
  induction subs with
  | nil => rfl
  | cons sub rest ih =>
    rw [List.insertionSort_cons, ← ih, ← insertByArity_eq]
    rfl

theorem mem_byArity {sub : Sub} {subs : List Sub} : sub ∈ byArity subs ↔ sub ∈ subs := by
  rw [byArity_eq, List.mem_insertionSort]

/-- Of the overloads in a list that meet a condition, the first with the fewest parameters. -/
structure Preferred (accepts : Sub → Prop) (subs : List Sub) (sub : Sub) : Prop where
  accepts_self : accepts sub
  split : ∃ earlier later, subs = earlier ++ sub :: later ∧
    (∀ other ∈ earlier, accepts other → sub.params.length < other.params.length) ∧
    ∀ other ∈ later, accepts other → sub.params.length ≤ other.params.length

variable {accepts : Sub → Prop} {subs before after : List Sub} {sub first : Sub}

theorem Preferred.head (hfirst : accepts first)
    (h : ∀ other ∈ subs, accepts other → first.params.length ≤ other.params.length) :
    Preferred accepts (first :: subs) first :=
  ⟨hfirst, [], subs, rfl, (fun _ ho => nomatch ho), h⟩

theorem Preferred.cons (h : Preferred accepts subs sub)
    (hfirst : accepts first → sub.params.length < first.params.length) :
    Preferred accepts (first :: subs) sub := by
  obtain ⟨earlier, later, hsplit, hearlier, hlater⟩ := h.split
  refine ⟨h.accepts_self, first :: earlier, later, congrArg (first :: ·) hsplit, ?_, hlater⟩
  exact List.forall_mem_cons.mpr ⟨hfirst, hearlier⟩

theorem Preferred.mem (h : Preferred accepts subs sub) : sub ∈ subs := by
  obtain ⟨earlier, later, rfl, -⟩ := h.split
  exact List.mem_append_right earlier List.mem_cons_self

theorem Preferred.of_filter {p : Sub → Bool} (h : Preferred accepts (subs.filter p) sub) :
    Preferred (fun other => p other = true ∧ accepts other) subs sub := by
  have hpasses : p sub = true := (List.mem_filter.mp h.mem).2
  obtain ⟨earlier, later, hsplit, hearlier, hlater⟩ := h.split
  obtain ⟨earlier', rest, rfl, rfl, hrest⟩ := List.filter_eq_append_iff.mp hsplit
  obtain ⟨skipped, later', rfl, hskipped, -, rfl⟩ := List.filter_eq_cons_iff.mp hrest
  refine ⟨⟨hpasses, h.accepts_self⟩, earlier' ++ skipped, later', by simp, ?_, ?_⟩
  · intro other ho hboth
    rcases List.mem_append.mp ho with ho | ho
    · exact hearlier other (List.mem_filter.mpr ⟨ho, hboth.1⟩) hboth.2
    · exact absurd hboth.1 (hskipped other ho)
  · exact fun other ho hboth => hlater other (List.mem_filter.mpr ⟨ho, hboth.1⟩) hboth.2

theorem Preferred.unique {other : Sub} (h : Preferred accepts subs sub)
    (h' : Preferred accepts subs other) : sub = other := by
  obtain ⟨earlier, later, rfl, hearlier, hlater⟩ := h.split
  obtain ⟨earlier', later', hsplit, hearlier', hlater'⟩ := h'.split
  rcases List.append_eq_append_iff.mp hsplit with ⟨gap, rfl, hrest⟩ | ⟨gap, rfl, hrest⟩
  · rcases List.cons_eq_append_iff.mp hrest with ⟨-, hcons⟩ | ⟨gap', rfl, rfl⟩
    · exact (List.cons.inj hcons).1.symm
    · have hlt := hearlier' sub (List.mem_append_right earlier List.mem_cons_self) h.accepts_self
      have hle := hlater other (List.mem_append_right gap' List.mem_cons_self) h'.accepts_self
      exact absurd hle (Nat.not_le_of_lt hlt)
  · rcases List.cons_eq_append_iff.mp hrest with ⟨-, hcons⟩ | ⟨gap', rfl, rfl⟩
    · exact (List.cons.inj hcons).1
    · have hlt := hearlier other (List.mem_append_right earlier' List.mem_cons_self) h'.accepts_self
      have hle := hlater' sub (List.mem_append_right gap' List.mem_cons_self) h.accepts_self
      exact absurd hle (Nat.not_le_of_lt hlt)

/-- Where the head of a list is the first to meet a condition, no other that meets it is
shorter. -/
theorem Preferred.of_head
    (h : (sub :: subs).insertionSort NoLonger = before ++ sub :: after)
    (hbefore : ∀ other ∈ before, ¬ accepts other) (hsub : accepts sub) :
    Preferred accepts (sub :: subs) sub := by
  have hsorted := List.pairwise_insertionSort NoLonger (sub :: subs)
  rw [h, List.pairwise_append, List.pairwise_cons] at hsorted
  refine .head hsub fun other ho hacc => ?_
  have hmem : other ∈ before ++ sub :: after :=
    h ▸ (List.mem_insertionSort NoLonger).mpr (List.mem_cons_of_mem sub ho)
  rcases List.mem_append.mp hmem with hin | hin
  · exact absurd hacc (hbefore other hin)
  · rcases List.mem_cons.mp hin with rfl | hin
    · exact Nat.le_refl _
    · exact hsorted.2.1.1 other hin

/-- The first overload in the order of trial that meets a condition is the preferred one. -/
theorem byArity_preferred (h : byArity subs = before ++ sub :: after)
    (hbefore : ∀ other ∈ before, ¬ accepts other) (hsub : accepts sub) :
    Preferred accepts subs sub := by
  rw [byArity_eq] at h
  induction subs generalizing before after with
  | nil =>
    rw [List.insertionSort_nil] at h
    exact absurd h.symm (List.append_ne_nil_of_right_ne_nil _ (List.cons_ne_nil _ _))
  | cons first rest ih =>
    have hhead : sub = first → Preferred accepts (first :: rest) sub := by
      rintro rfl
      exact .of_head h hbefore hsub
    -- The head of the list splits the others in their order of trial.
    let p : Sub → Bool := fun b => decide ¬ NoLonger first b
    have hwhole := List.takeWhile_append_dropWhile (p := p) (l := rest.insertionSort NoLonger)
    have hshort : ∀ b ∈ (rest.insertionSort NoLonger).takeWhile p, ¬ NoLonger first b :=
      fun b hb => of_decide_eq_true (List.mem_takeWhile_imp (p := p) hb)
    rw [List.insertionSort_cons_eq_take_drop] at h
    generalize (rest.insertionSort NoLonger).takeWhile _ = short at h hwhole hshort
    generalize (rest.insertionSort NoLonger).dropWhile _ = long at h hwhole
    rcases List.append_eq_append_iff.mp h with ⟨gap, rfl, hlong⟩ | ⟨gap, rfl, hafter⟩
    · rcases List.cons_eq_append_iff.mp hlong with ⟨-, hcons⟩ | ⟨gap', rfl, rfl⟩
      · exact hhead (List.cons.inj hcons).1
      · have hfirst := hbefore first (List.mem_append_right short List.mem_cons_self)
        rw [← List.append_assoc] at hwhole
        refine (ih hwhole.symm fun other ho => hbefore other ?_).cons fun hacc => absurd hacc hfirst
        exact List.mem_append.mpr ((List.mem_append.mp ho).imp_right (List.mem_cons_of_mem first))
    · rcases List.cons_eq_append_iff.mp hafter with ⟨-, hcons⟩ | ⟨gap', rfl, rfl⟩
      · exact hhead (List.cons.inj hcons).1.symm
      · rw [List.append_assoc] at hwhole
        refine (ih hwhole.symm hbefore).cons fun _ => Nat.lt_of_not_le (hshort sub ?_)
        exact List.mem_append_right before List.mem_cons_self

end Sub

end BasicScript
