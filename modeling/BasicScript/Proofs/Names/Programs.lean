import BasicScript.Proofs.Law.Scopes
import BasicScript.Proofs.Types.Signature
import BasicScript.Proofs.Types.Storage

/-! # Programs with certain names

Where the data types and enums that programs declare bear names as wanted, the
types in all tables are spelled with such names, for there is no other way to
come by a type that is named. Every overload then stands in the tables under
the signature of its types, and a native one has its function in the library.
-/

namespace BasicScript

/-- Name of the data type or enum that a form declares. -/
def StmtKind.typeNames : StmtKind → List String
  | .data name _ | .enum name _ _ => [name]
  | _ => []

/-- All data types and enums that are declared in a statement bear names as wanted; bodies of subs
are no exception. -/
inductive Stmt.Naming (N : String → Prop) : Stmt → Prop where
  | mk {kind : StmtKind} {span : Span} :
      (∀ name ∈ kind.typeNames, N name) → (∀ s ∈ kind.parts, Naming N s) →
      (∀ d, kind = .sub d → ∀ s ∈ d.body, Naming N s) → Naming N (.mk kind span)

/-- An overload with types that are spelled as wanted, under the signature of these types. -/
structure Sub.Spelled (N : String → Prop) (sub : Sub) : Prop where
  types : ∀ q ∈ sub.params, q.type.Spelled N
  signature : sub.signature = signatureText sub.name (sub.params.map (·.type))
  native : sub.native = true → Library.standard.Provides sub.signature sub.returns

section Grammar

variable {N : String → Prop}

theorem TypeExpr.Gives.spelled {written : TypeExpr} {t : Ty}
    (h : written.Gives (fun _ t => t.Spelled N) t) : t.Spelled N := by
  match written, t, h with
  | .inferred, _, rfl => trivial
  | .prim _, _, rfl => trivial
  | .array element _, _, ⟨t, _, rfl, ht⟩ | .vararg element, _, ⟨t, rfl, ht⟩ =>
    have hgives : element.Gives (fun _ t => t.Spelled N) t := ht
    have helement : t.Spelled N := hgives.spelled
    exact helement
  | .named _, _, ht => exact ht

/-- The grammar of programs in which types bear names as wanted. -/
def Grammar.naming (N : String → Prop) : Grammar where
  stmt s := s.Naming N
  sub sub := (∀ s ∈ sub.body, s.Naming N) ∧ sub.Spelled N
  data d := N d.name
  named _ t := t.Spelled N
  parts := by
    rintro kind span ⟨-, hparts, -⟩
    exact hparts
  body h := h.1
  ofSub := by
    rintro d span params returns scope ⟨-, -, hbody⟩ hparams hnative
    refine ⟨hbody d rfl, fun p hp => ?_, rfl, hnative⟩
    obtain ⟨q, -, -, htype⟩ := exists_of_forall₂ hparams hp
    exact htype.spelled
  ofData := by
    rintro name written span fields scope ⟨hname, -, -⟩ -
    exact hname name (List.mem_singleton_self name)
  ofAlias _ ht := ht.spelled
  ofDataName hd := hd
  ofEnumName := by
    rintro name kind entries span ⟨hname, -, -⟩
    exact hname name (List.mem_singleton_self name)

/-- Builtin subs declare no types. -/
theorem naming_core : ∀ s ∈ coreDeclarations, s.Naming N := by
  have hbuiltin : ∀ name param type returns,
      (builtinDeclaration name param type returns).Naming N := by
    intro name param type returns
    refine .mk (fun _ h => nomatch h) (fun _ h => nomatch h) ?_
    rintro _ ⟨⟩ _ ⟨⟩
  exact coreDeclarations_cases (fun _ _ _ _ => hbuiltin _ _ _ _) fun _ _ _ _ => hbuiltin _ _ _ _

end Grammar

/-- States that programs made of certain statements reach. -/
inductive ReachesBy (allowed : Stmt → Prop) (library : Library) (s : State) : State → Prop where
  | refl : ReachesBy allowed library s s
  | run {t : State} {program : List Stmt} (hprogram : ∀ stmt ∈ program, allowed stmt)
      (halt : State → Bool) (fuel : Nat) : ReachesBy allowed library s t →
      ReachesBy allowed library s
        (((Evaluator.interrupted library halt fuel).run program).state t)

/-- Moments in the runs of programs made of certain statements. -/
structure State.AmidBy (allowed : Stmt → Prop) (settings : Settings) (t : State) : Prop where
  reached : ∃ s, ReachesBy allowed .standard (.initial settings) s ∧ t.store = s.store ∧
    t.env.scopes = s.env.scopes
  nested : t.env.Nested

section Moments

variable {allowed : Stmt → Prop} {library : Library} {settings : Settings} {s t : State}
  {N : String → Prop}

theorem ReachesBy.reaches (h : ReachesBy allowed library s t) : Reaches library s t := by
  induction h with
  | refl => exact .refl
  | run _ halt fuel _ ih => exact .run _ halt fuel ih

theorem ReachesBy.amid (h : ReachesBy allowed .standard (.initial settings) s) :
    s.AmidBy allowed settings :=
  ⟨⟨s, h, rfl, rfl⟩, h.reaches.amid.nested⟩

theorem ReachesBy.obeys (h : ReachesBy (Stmt.Naming N) .standard (.initial settings) s) :
    s.Obeys (.naming N) := by
  induction h with
  | refl => exact .initial (.naming N) settings
  | run hprogram halt fuel _ ih => exact ih.run naming_core hprogram halt fuel

theorem State.AmidBy.obeys (h : t.AmidBy (Stmt.Naming N) settings) : t.Obeys (.naming N) := by
  obtain ⟨s, hs, -, hscopes⟩ := h.reached
  intro i sc hsc
  rw [hscopes] at hsc
  exact hs.obeys i sc hsc

/-- All overloads in the tables are spelled as wanted. -/
theorem State.Obeys.spelled (h : s.Obeys (.naming N)) {sub : Sub} (hsub : s.HasSub sub) :
    sub.Spelled N := by
  obtain ⟨i, sc, hsc, hmem⟩ := hsub
  exact ((h i sc hsc).subs sub hmem).1.2

end Moments

end BasicScript
