import BasicScript.Proofs.Law.Program

/-! # Founded programs

The default of a parameter is evaluated before the call that it belongs to is
active, and the default of a field belongs to no call at all. A limit on calls
bounds neither kind of recursion, so that these have to be founded in another
way: by a ranking of subs and types, in which defaults go down.
-/

namespace BasicScript

/-- What the evaluation of an expression can ask for a default: the overloads of a name, the type
of a name, and a type that the context of the expression gives. -/
inductive Mention where
  | sub (name : String)
  | type (name : String)
  | context

/-- Names in a written type. -/
def TypeExpr.names : TypeExpr → List String
  | .array element _ | .vararg element => element.names
  | .named name => [name]
  | _ => []

/-- Names of the data types in a type. -/
def Ty.names : Ty → List String
  | .array element _ | .vararg element => element.names
  | .data name => [name]
  | _ => []

/-- The types that a form mentions. -/
def ExprKind.made : ExprKind → List Mention
  | .type written | .instantiate (some written) _ => written.names.map .type
  | .instantiate none _ => [.context]
  | _ => []

/-- An expression mentions what its form or a part of it mentions. -/
inductive Expr.Mentions : Expr → Mention → Prop where
  | call {kind : ExprKind} {span : Span} {name : String} :
      name ∈ kind.calls → Mentions (.mk kind span) (.sub name)
  | made {kind : ExprKind} {span : Span} {m : Mention} :
      m ∈ kind.made → Mentions (.mk kind span) m
  | part {kind : ExprKind} {span : Span} {e : Expr} {m : Mention} :
      e ∈ kind.parts → Mentions e m → Mentions (.mk kind span) m

/-- Ranks of subs and of types by their names. -/
structure Ranking where
  sub : String → ℕ
  type : String → ℕ

namespace Ranking

variable (rk : Ranking)

/-- What is mentioned ranks below a bound, if there is one. A type that the context gives has no
rank. -/
def Under (bound : Option ℕ) : Mention → Prop
  | .sub name => ∀ b ∈ bound, rk.sub name < b
  | .type name => ∀ b ∈ bound, rk.type name < b
  | .context => bound = none

/-- A name may stand for a type whose data types rank no higher. -/
def Names (name : String) (t : Ty) : Prop := ∀ n ∈ t.names, rk.type n ≤ rk.type name

end Ranking

/-- All that an expression mentions ranks below a bound. -/
def Expr.Below (rk : Ranking) (bound : Option ℕ) (e : Expr) : Prop :=
  ∀ m, e.Mentions m → rk.Under bound m

/-- All names in a written type rank below a bound. -/
def TypeExpr.Below (rk : Ranking) (bound : Option ℕ) (written : TypeExpr) : Prop :=
  ∀ name ∈ written.names, rk.Under bound (.type name)

/-- All data types in a type rank below a bound. -/
def Ty.Below (rk : Ranking) (bound : Option ℕ) (t : Ty) : Prop :=
  ∀ name ∈ t.names, rk.Under bound (.type name)

/-- A form of declaration goes down in rank where defaults are taken: with the default of a
parameter or field or, where there is none, with its type. -/
def StmtKind.Descends (rk : Ranking) : StmtKind → Prop
  | .sub d => ∀ q ∈ d.params, (∀ e ∈ q.default, e.Below rk (some (rk.sub d.name))) ∧
      (q.default = Option.none → q.type.Below rk (some (rk.sub d.name)))
  | .data name fields => ∀ f ∈ fields, (∀ e ∈ f.default, e.Below rk (some (rk.type name))) ∧
      (f.default = Option.none → f.type.Below rk (some (rk.type name)))
  | .alias name written => ∀ n ∈ written.names, rk.type n ≤ rk.type name
  | _ => True

/-- Every declaration in a statement goes down in rank, and no loop in it ends by a test alone;
bodies of subs are no exception. -/
inductive Stmt.Founded (rk : Ranking) : Stmt → Prop where
  | mk {kind : StmtKind} {span : Span} :
      kind.repeats = false → kind.Descends rk → (∀ s ∈ kind.parts, Founded rk s) →
      (∀ d, kind = .sub d → ∀ s ∈ d.body, Founded rk s) → Founded rk (.mk kind span)

section Below

variable {rk : Ranking} {bound : Option ℕ}

theorem Ty.below_none (t : Ty) : t.Below rk none := fun _ _ _ hb => nomatch hb

theorem Expr.below_none (e : Expr) : e.Below rk none := by
  intro m _
  cases m with
  | sub name | type name => exact fun _ hb => nomatch hb
  | context => rfl

theorem Expr.Below.call {e : Expr} (h : e.Below rk bound) {name : String}
    (hname : name ∈ e.kind.calls) : rk.Under bound (.sub name) := by
  obtain ⟨kind, span⟩ := e
  exact h _ (.call hname)

theorem Expr.Below.part {e e' : Expr} (h : e.Below rk bound) (he' : e' ∈ e.kind.parts) :
    e'.Below rk bound := by
  obtain ⟨kind, span⟩ := e
  exact fun m hm => h m (.part he' hm)

/-- A data type in what a written type stands for ranks no higher than some name in that. -/
theorem TypeExpr.exists_name {written : TypeExpr} {t : Ty}
    (ht : written.Gives rk.Names t) {n : String}
    (hn : n ∈ t.names) : ∃ name ∈ written.names, rk.type n ≤ rk.type name := by
  match written, t, ht with
  | .inferred, _, rfl => exact nomatch hn
  | .prim p, _, rfl => exact nomatch hn
  | .array element size, _, ⟨t, n, rfl, ht⟩ =>
    exact exists_name (show element.Gives _ t from ht) hn
  | .vararg element, _, ⟨t, rfl, ht⟩ =>
    exact exists_name (show element.Gives _ t from ht) hn
  | .named name, t, ht => exact ⟨name, List.mem_singleton_self _, ht n hn⟩

theorem TypeExpr.Below.gives {written : TypeExpr} {t : Ty} (h : written.Below rk bound)
    (ht : written.Gives rk.Names t) :
    t.Below rk bound := by
  intro n hn
  obtain ⟨name, hname, hle⟩ := exists_name ht hn
  exact fun b hb => hle.trans_lt (h name hname b hb)

/-- What an expression makes values of ranks below a bound of the expression. -/
theorem Expr.Below.makes {e : Expr} (h : e.Below rk bound) {hint : Option Ty} {t : Ty}
    (ht : e.kind.Makes rk.Names hint t) : t.Below rk bound := by
  obtain ⟨kind, span⟩ := e
  have hwritten : ∀ written : TypeExpr, (∀ name ∈ written.names, .type name ∈ kind.made) →
      written.Below rk bound :=
    fun written hmade name hname => h _ (.made (hmade name hname))
  cases kind with
  | type written => exact (hwritten written fun _ hname => List.mem_map_of_mem hname).gives ht
  | instantiate target elements =>
    cases target with
    | some written =>
      exact (hwritten written fun _ hname => List.mem_map_of_mem hname).gives ht
    | none =>
      have hnone : bound = none := h .context (.made (List.mem_singleton_self _))
      exact hnone ▸ t.below_none
  | _ => exact ht.elim

end Below

/-- The grammar of founded programs. -/
def Ranking.grammar (rk : Ranking) : Grammar where
  stmt s := s.Founded rk
  sub sub := (∀ q ∈ sub.params, (∀ e ∈ q.default, e.Below rk (some (rk.sub sub.name))) ∧
    (q.default = none → q.type.Below rk (some (rk.sub sub.name)))) ∧ ∀ s ∈ sub.body, s.Founded rk
  data d := ∀ f ∈ d.fields, (∀ e ∈ f.default, e.Below rk (some (rk.type d.name))) ∧
    (f.default = none → f.type.Below rk (some (rk.type d.name)))
  named := rk.Names
  parts := by
    rintro kind span ⟨-, -, hparts, -⟩
    exact hparts
  body h := h.2
  ofSub := by
    rintro d span params returns scope ⟨-, hdescends, -, hbody⟩ hparams -
    refine ⟨fun p hp => ?_, hbody d rfl⟩
    obtain ⟨q, hq, hdefault, htype⟩ := exists_of_forall₂ hparams hp
    rw [hdefault]
    exact ⟨(hdescends q hq).1, fun hnone => ((hdescends q hq).2 hnone).gives htype⟩
  ofData := by
    rintro name written span fields scope ⟨-, hdescends, -, -⟩ hfields g hg
    obtain ⟨f, hf, hdefault, htype⟩ := exists_of_forall₂ hfields hg
    rw [hdefault]
    exact ⟨(hdescends f hf).1, fun hnone => ((hdescends f hf).2 hnone).gives htype⟩
  ofAlias := by
    rintro name written span t ⟨-, hdescends, -, -⟩ ht n hn
    obtain ⟨m, hm, hle⟩ := TypeExpr.exists_name ht hn
    exact hle.trans (hdescends m hm)
  ofDataName _ n hn := by
    rw [List.mem_singleton.mp hn]
  ofEnumName _ _ hn := nomatch hn

end BasicScript
