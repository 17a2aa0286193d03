import BasicScript.Eval.Call

/-! # Programs with other spans

A map of spans takes a program to one that differs in nothing but the places
of its nodes. Everything that is read off a program, apart from its spans, is
the same before and after.
-/

namespace BasicScript

section Trees

variable (f : Span → Span)

mutual

/-- A written type with other spans. -/
def TypeExpr.mapSpans : TypeExpr → TypeExpr
  | .inferred => .inferred
  | .prim p => .prim p
  | .array element size => .array element.mapSpans (Expr.mapSpans? size)
  | .vararg element => .vararg element.mapSpans
  | .named name => .named name

/-- A written type with other spans, where there is one. -/
def TypeExpr.mapSpans? : Option TypeExpr → Option TypeExpr
  | none => none
  | some written => some written.mapSpans

/-- An expression with other spans. -/
def Expr.mapSpans : Expr → Expr
  | .mk kind span => .mk kind.mapSpans (f span)

/-- An expression with other spans, where there is one. -/
def Expr.mapSpans? : Option Expr → Option Expr
  | none => none
  | some e => some e.mapSpans

/-- Expressions with other spans. -/
def Expr.mapSpansAll : List Expr → List Expr
  | [] => []
  | e :: rest => e.mapSpans :: Expr.mapSpansAll rest

/-- A form of expression with other spans. -/
def ExprKind.mapSpans : ExprKind → ExprKind
  | .empty => .empty
  | .literal value => .literal value
  | .name name => .name name
  | .type written => .type written.mapSpans
  | .array elements => .array (Expr.mapSpansAll elements)
  | .unary op operand => .unary op operand.mapSpans
  | .binary op left right => .binary op left.mapSpans right.mapSpans
  | .getIndex target index => .getIndex target.mapSpans index.mapSpans
  | .setIndex target index value => .setIndex target.mapSpans index.mapSpans value.mapSpans
  | .getMember target member => .getMember target.mapSpans member
  | .setMember target member value => .setMember target.mapSpans member value.mapSpans
  | .invoke name args => .invoke name (Argument.mapSpansAll args)
  | .instantiate target elements =>
    .instantiate (TypeExpr.mapSpans? target) (Expr.mapSpansAll elements)
  | .enumEntry enum entry => .enumEntry enum entry

/-- An argument with other spans. -/
def Argument.mapSpans : Argument → Argument
  | .mk spread e => .mk spread e.mapSpans

/-- Arguments with other spans. -/
def Argument.mapSpansAll : List Argument → List Argument
  | [] => []
  | arg :: rest => arg.mapSpans :: Argument.mapSpansAll rest

end

theorem Expr.mapSpansAll_eq_map (es : List Expr) :
    Expr.mapSpansAll f es = es.map (Expr.mapSpans f) := by
  induction es with
  | nil => rfl
  | cons e rest ih => rw [Expr.mapSpansAll, ih, List.map_cons]

theorem Argument.mapSpansAll_eq_map (args : List Argument) :
    Argument.mapSpansAll f args = args.map (Argument.mapSpans f) := by
  induction args with
  | nil => rfl
  | cons arg rest ih => rw [Argument.mapSpansAll, ih, List.map_cons]

/-- A parameter with other spans. -/
def Param.mapSpans (p : Param) : Param :=
  ⟨p.name, p.type.mapSpans f, p.default.map (Expr.mapSpans f)⟩

/-- A field with other spans. -/
def FieldDef.mapSpans (d : FieldDef) : FieldDef :=
  ⟨d.name, d.type.mapSpans f, d.constant, d.default.map (Expr.mapSpans f)⟩

/-- An entry of an enum with other spans. -/
def EntryDef.mapSpans (e : EntryDef) : EntryDef := ⟨e.name, e.elements.map (Expr.mapSpans f)⟩

/-- A kind of enum with other spans. -/
def EnumKind.mapSpans : EnumKind → EnumKind
  | .basic written => .basic (written.mapSpans f)
  | .data name => .data name

/-- The test of a case with other spans. -/
def CaseTest.mapSpans : CaseTest → CaseTest
  | .values es => .values (es.map (Expr.mapSpans f))
  | .type written inverted => .type (written.mapSpans f) inverted
  | .otherwise => .otherwise

/-- Names with their written types, with other spans. -/
def mapNames (names : List (String × TypeExpr)) : List (String × TypeExpr) :=
  names.map fun n => (n.1, n.2.mapSpans f)

mutual

/-- A statement with other spans. -/
def Stmt.mapSpans : Stmt → Stmt
  | .mk kind span => .mk kind.mapSpans (f span)

/-- Statements with other spans. -/
def Stmt.mapSpansAll : List Stmt → List Stmt
  | [] => []
  | s :: rest => s.mapSpans :: Stmt.mapSpansAll rest

/-- Statements with other spans, where there are some. -/
def Stmt.mapSpansAll? : Option (List Stmt) → Option (List Stmt)
  | none => none
  | some body => some (Stmt.mapSpansAll body)

/-- A form of statement with other spans. -/
def StmtKind.mapSpans : StmtKind → StmtKind
  | .none => .none
  | .declare name type init constant =>
    .declare name (type.mapSpans f) (init.mapSpans f) constant
  | .declareEach names init constant => .declareEach (mapNames f names) (init.mapSpans f) constant
  | .block body => .block (Stmt.mapSpansAll body)
  | .doBlock label body => .doBlock label (Stmt.mapSpansAll body)
  | .ifElse branches otherwise =>
    .ifElse (Branch.mapSpansAll branches) (Stmt.mapSpansAll? otherwise)
  | .switch label subject cases => .switch label (subject.mapSpans f) (Case.mapSpansAll cases)
  | .whileLoop label test body => .whileLoop label (test.mapSpans f) (Stmt.mapSpansAll body)
  | .untilLoop label test body => .untilLoop label (test.mapSpans f) (Stmt.mapSpansAll body)
  | .forCount label name type start limit step body =>
    .forCount label name (type.mapSpans f) (start.mapSpans f) (limit.mapSpans f)
      (step.map (Expr.mapSpans f)) (Stmt.mapSpansAll body)
  | .forEach label name type iterable body =>
    .forEach label name (type.mapSpans f) (iterable.mapSpans f) (Stmt.mapSpansAll body)
  | .forEachOf label names iterable body =>
    .forEachOf label (mapNames f names) (iterable.mapSpans f) (Stmt.mapSpansAll body)
  | .data name fields => .data name (fields.map (FieldDef.mapSpans f))
  | .sub d => .sub d.mapSpans
  | .breakTo label => .breakTo label
  | .nextTo label => .nextTo label
  | .leave => .leave
  | .yield value => .yield (value.mapSpans f)
  | .alias name type => .alias name (type.mapSpans f)
  | .enum name kind entries =>
    .enum name (kind.mapSpans f) (entries.map (EntryDef.mapSpans f))
  | .expression e => .expression (e.mapSpans f)

/-- A branch with other spans. -/
def Branch.mapSpans : Branch → Branch
  | .mk test body => .mk (test.mapSpans f) (Stmt.mapSpansAll body)

/-- Branches with other spans. -/
def Branch.mapSpansAll : List Branch → List Branch
  | [] => []
  | b :: rest => b.mapSpans :: Branch.mapSpansAll rest

/-- A case with other spans. -/
def Case.mapSpans : Case → Case
  | .mk test body => .mk (test.mapSpans f) (Stmt.mapSpansAll body)

/-- Cases with other spans. -/
def Case.mapSpansAll : List Case → List Case
  | [] => []
  | c :: rest => c.mapSpans :: Case.mapSpansAll rest

/-- The definition of an overload with other spans. -/
def SubDef.mapSpans : SubDef → SubDef
  | .mk name params returns body builtin =>
    .mk name (params.map (Param.mapSpans f)) (returns.mapSpans f) (Stmt.mapSpansAll body) builtin

end

theorem Stmt.mapSpansAll_eq_map (body : List Stmt) :
    Stmt.mapSpansAll f body = body.map (Stmt.mapSpans f) := by
  induction body with
  | nil => rfl
  | cons s rest ih => rw [Stmt.mapSpansAll, ih, List.map_cons]

theorem Branch.mapSpansAll_eq_map (bs : List Branch) :
    Branch.mapSpansAll f bs = bs.map (Branch.mapSpans f) := by
  induction bs with
  | nil => rfl
  | cons b rest ih => rw [Branch.mapSpansAll, ih, List.map_cons]

theorem Case.mapSpansAll_eq_map (cs : List Case) :
    Case.mapSpansAll f cs = cs.map (Case.mapSpans f) := by
  induction cs with
  | nil => rfl
  | cons c rest ih => rw [Case.mapSpansAll, ih, List.map_cons]

end Trees

section Readings

variable (f : Span → Span)

theorem Expr.mapSpans_mk (kind : ExprKind) (span : Span) :
    (Expr.mk kind span).mapSpans f = .mk (kind.mapSpans f) (f span) := rfl

@[simp] theorem Expr.kind_mapSpans (e : Expr) : (e.mapSpans f).kind = e.kind.mapSpans f := by
  cases e; rfl

@[simp] theorem Expr.span_mapSpans (e : Expr) : (e.mapSpans f).span = f e.span := by cases e; rfl

@[simp] theorem Stmt.kind_mapSpans (s : Stmt) : (s.mapSpans f).kind = s.kind.mapSpans f := by
  cases s; rfl

@[simp] theorem Stmt.span_mapSpans (s : Stmt) : (s.mapSpans f).span = f s.span := by cases s; rfl

@[simp] theorem StmtKind.describe_mapSpans (kind : StmtKind) :
    (kind.mapSpans f).describe = kind.describe := by
  cases kind <;> rfl

@[simp] theorem Expr.isUntyped_mapSpans (e : Expr) : (e.mapSpans f).isUntyped = e.isUntyped := by
  unfold Expr.isUntyped
  rw [Expr.kind_mapSpans]
  cases e.kind with
  | instantiate target elements => cases target <;> rfl
  | _ => rfl

@[simp] theorem mapNames_length (names : List (String × TypeExpr)) :
    (mapNames f names).length = names.length := List.length_map _

end Readings

section Identity

mutual

@[simp] theorem TypeExpr.mapSpans_id : ∀ written : TypeExpr, written.mapSpans id = written
  | .inferred | .prim _ | .named _ => rfl
  | .array element size => by
    rw [TypeExpr.mapSpans, TypeExpr.mapSpans_id element, Expr.mapSpans?_id size]
  | .vararg element => by rw [TypeExpr.mapSpans, TypeExpr.mapSpans_id element]

theorem TypeExpr.mapSpans?_id : ∀ written, TypeExpr.mapSpans? id written = written
  | none => rfl
  | some written => by rw [TypeExpr.mapSpans?, TypeExpr.mapSpans_id written]

@[simp] theorem Expr.mapSpans_id : ∀ e : Expr, e.mapSpans id = e
  | .mk kind span => by rw [Expr.mapSpans, ExprKind.mapSpans_id kind, id]

theorem Expr.mapSpans?_id : ∀ e, Expr.mapSpans? id e = e
  | none => rfl
  | some e => by rw [Expr.mapSpans?, Expr.mapSpans_id e]

theorem Expr.mapSpansAll_id : ∀ es, Expr.mapSpansAll id es = es
  | [] => rfl
  | e :: rest => by rw [Expr.mapSpansAll, Expr.mapSpans_id e, Expr.mapSpansAll_id rest]

theorem ExprKind.mapSpans_id : ∀ kind : ExprKind, kind.mapSpans id = kind
  | .empty | .literal _ | .name _ | .enumEntry .. => rfl
  | .type written => by rw [ExprKind.mapSpans, TypeExpr.mapSpans_id written]
  | .array elements => by rw [ExprKind.mapSpans, Expr.mapSpansAll_id elements]
  | .unary _ operand => by rw [ExprKind.mapSpans, Expr.mapSpans_id operand]
  | .binary _ left right => by
    rw [ExprKind.mapSpans, Expr.mapSpans_id left, Expr.mapSpans_id right]
  | .getIndex target index => by
    rw [ExprKind.mapSpans, Expr.mapSpans_id target, Expr.mapSpans_id index]
  | .setIndex target index value => by
    rw [ExprKind.mapSpans, Expr.mapSpans_id target, Expr.mapSpans_id index,
      Expr.mapSpans_id value]
  | .getMember target _ => by rw [ExprKind.mapSpans, Expr.mapSpans_id target]
  | .setMember target _ value => by
    rw [ExprKind.mapSpans, Expr.mapSpans_id target, Expr.mapSpans_id value]
  | .invoke _ args => by rw [ExprKind.mapSpans, Argument.mapSpansAll_id args]
  | .instantiate target elements => by
    rw [ExprKind.mapSpans, TypeExpr.mapSpans?_id target, Expr.mapSpansAll_id elements]

theorem Argument.mapSpans_id : ∀ arg : Argument, arg.mapSpans id = arg
  | .mk _ e => by rw [Argument.mapSpans, Expr.mapSpans_id e]

theorem Argument.mapSpansAll_id : ∀ args, Argument.mapSpansAll id args = args
  | [] => rfl
  | arg :: rest => by
    rw [Argument.mapSpansAll, Argument.mapSpans_id arg, Argument.mapSpansAll_id rest]

end

theorem mapOption_id {α : Type} {g : α → α} (h : ∀ a, g a = a) (a : Option α) : a.map g = a := by
  rw [funext h, Option.map_id']

@[simp] theorem Param.mapSpans_id (p : Param) : p.mapSpans id = p := by
  simp only [Param.mapSpans, TypeExpr.mapSpans_id, mapOption_id Expr.mapSpans_id]

@[simp] theorem FieldDef.mapSpans_id (d : FieldDef) : d.mapSpans id = d := by
  simp only [FieldDef.mapSpans, TypeExpr.mapSpans_id, mapOption_id Expr.mapSpans_id]

@[simp] theorem EntryDef.mapSpans_id (e : EntryDef) : e.mapSpans id = e := by
  simp only [EntryDef.mapSpans, List.map_id'' Expr.mapSpans_id]

@[simp] theorem EnumKind.mapSpans_id (kind : EnumKind) : kind.mapSpans id = kind := by
  cases kind <;> simp only [EnumKind.mapSpans, TypeExpr.mapSpans_id]

@[simp] theorem CaseTest.mapSpans_id (test : CaseTest) : test.mapSpans id = test := by
  cases test <;>
    simp only [CaseTest.mapSpans, TypeExpr.mapSpans_id, List.map_id'' Expr.mapSpans_id]

@[simp] theorem mapNames_id (names : List (String × TypeExpr)) : mapNames id names = names :=
  List.map_id'' (fun n => by rw [TypeExpr.mapSpans_id]) names

mutual

@[simp] theorem Stmt.mapSpans_id : ∀ s : Stmt, s.mapSpans id = s
  | .mk kind span => by rw [Stmt.mapSpans, StmtKind.mapSpans_id kind, id]

@[simp] theorem Stmt.mapSpansAll_id : ∀ body, Stmt.mapSpansAll id body = body
  | [] => rfl
  | s :: rest => by rw [Stmt.mapSpansAll, Stmt.mapSpans_id s, Stmt.mapSpansAll_id rest]

theorem Stmt.mapSpansAll?_id : ∀ body, Stmt.mapSpansAll? id body = body
  | none => rfl
  | some body => by rw [Stmt.mapSpansAll?, Stmt.mapSpansAll_id body]

theorem StmtKind.mapSpans_id : ∀ kind : StmtKind, kind.mapSpans id = kind
  | .none | .breakTo _ | .nextTo _ | .leave => rfl
  | .declare .. | .declareEach .. | .data .. | .yield _ | .alias .. | .enum .. | .expression _ => by
    simp only [StmtKind.mapSpans, TypeExpr.mapSpans_id, Expr.mapSpans_id, mapNames_id,
      List.map_id'' FieldDef.mapSpans_id, EnumKind.mapSpans_id, List.map_id'' EntryDef.mapSpans_id]
  | .block body => by rw [StmtKind.mapSpans, Stmt.mapSpansAll_id body]
  | .doBlock _ body => by rw [StmtKind.mapSpans, Stmt.mapSpansAll_id body]
  | .ifElse branches otherwise => by
    rw [StmtKind.mapSpans, Branch.mapSpansAll_id branches, Stmt.mapSpansAll?_id otherwise]
  | .switch _ _ cases => by
    rw [StmtKind.mapSpans, Expr.mapSpans_id, Case.mapSpansAll_id cases]
  | .whileLoop _ _ body => by
    rw [StmtKind.mapSpans, Expr.mapSpans_id, Stmt.mapSpansAll_id body]
  | .untilLoop _ _ body => by
    rw [StmtKind.mapSpans, Expr.mapSpans_id, Stmt.mapSpansAll_id body]
  | .forCount _ _ _ _ _ _ body => by
    rw [StmtKind.mapSpans, TypeExpr.mapSpans_id, Expr.mapSpans_id, Expr.mapSpans_id,
      mapOption_id Expr.mapSpans_id, Stmt.mapSpansAll_id body]
  | .forEach _ _ _ _ body => by
    rw [StmtKind.mapSpans, TypeExpr.mapSpans_id, Expr.mapSpans_id, Stmt.mapSpansAll_id body]
  | .forEachOf _ _ _ body => by
    rw [StmtKind.mapSpans, mapNames_id, Expr.mapSpans_id, Stmt.mapSpansAll_id body]
  | .sub d => by rw [StmtKind.mapSpans, SubDef.mapSpans_id d]

theorem Branch.mapSpans_id : ∀ b : Branch, b.mapSpans id = b
  | .mk _ body => by rw [Branch.mapSpans, Expr.mapSpans_id, Stmt.mapSpansAll_id body]

theorem Branch.mapSpansAll_id : ∀ bs, Branch.mapSpansAll id bs = bs
  | [] => rfl
  | b :: rest => by rw [Branch.mapSpansAll, Branch.mapSpans_id b, Branch.mapSpansAll_id rest]

theorem Case.mapSpans_id : ∀ c : Case, c.mapSpans id = c
  | .mk _ body => by rw [Case.mapSpans, CaseTest.mapSpans_id, Stmt.mapSpansAll_id body]

theorem Case.mapSpansAll_id : ∀ cs, Case.mapSpansAll id cs = cs
  | [] => rfl
  | c :: rest => by rw [Case.mapSpansAll, Case.mapSpans_id c, Case.mapSpansAll_id rest]

theorem SubDef.mapSpans_id : ∀ d : SubDef, d.mapSpans id = d
  | .mk _ _ _ body _ => by
    rw [SubDef.mapSpans, List.map_id'' Param.mapSpans_id, TypeExpr.mapSpans_id,
      Stmt.mapSpansAll_id body]

end

end Identity

end BasicScript
