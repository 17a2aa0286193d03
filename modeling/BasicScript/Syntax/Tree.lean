import BasicScript.Syntax.Operator
import BasicScript.Syntax.Primitive
import BasicScript.Syntax.Span

/-! # Program trees

Written types, expressions and statements, as a reader of the language hands
them over. Every expression and every statement carries its span.
-/

namespace BasicScript

/-- Constants. -/
inductive Literal where
  | none
  | bool (value : Bool)
  | byte (value : Int8)
  | short (value : Int16)
  | int (value : Int32)
  | long (value : Int64)
  | float (value : Float32)
  | double (value : Float)
  | char (value : Char)
  | string (value : String)

mutual

/-- A type as it is written. -/
inductive TypeExpr where
  /-- No annotation: the type is taken from the value. -/
  | inferred
  | prim (primitive : Primitive)
  /-- A missing or negative size admits every length. -/
  | array (element : TypeExpr) (size : Option Expr)
  /-- The tail of a parameter list. -/
  | vararg (element : TypeExpr)
  /-- The name of a data type, an enum or an alias. -/
  | named (name : String)

/-- An expression and where it stands. -/
inductive Expr where
  | mk (kind : ExprKind) (span : Span)

/-- Forms of expressions. -/
inductive ExprKind where
  /-- No value supplied. -/
  | empty
  | literal (value : Literal)
  | name (name : String)
  /-- A type in the place of a value: `x is int`. -/
  | type (type : TypeExpr)
  | array (elements : List Expr)
  | unary (op : UnaryOp) (operand : Expr)
  | binary (op : BinaryOp) (left right : Expr)
  | getIndex (target index : Expr)
  | setIndex (target index value : Expr)
  | getMember (target : Expr) (member : String)
  | setMember (target : Expr) (member : String) (value : Expr)
  | invoke (name : String) (args : List Argument)
  /-- A composite or an array from its elements; a missing target is taken from the context. -/
  | instantiate (target : Option TypeExpr) (elements : List Expr)
  | enumEntry (enum entry : String)

/-- An argument of a call; a spread one stands for the elements of its value. -/
inductive Argument where
  | mk (spread : Bool) (expr : Expr)

end

namespace Expr

/-- Form of an expression. -/
def kind : Expr → ExprKind
  | .mk kind _ => kind

/-- Place of an expression. -/
def span : Expr → Span
  | .mk _ span => span

/-- An expression that no text spells. -/
def generated (kind : ExprKind) : Expr := .mk kind .nowhere

/-- The same expression at another place. -/
def withSpan (e : Expr) (span : Span) : Expr := .mk e.kind span

end Expr

/-- A field of a data declaration. -/
structure FieldDef where
  name : String
  type : TypeExpr
  constant : Bool
  /-- Stands in for an element that is not supplied. -/
  default : Option Expr

/-- A parameter of a sub. -/
structure Param where
  name : String
  type : TypeExpr
  /-- Stands in for an argument that is not supplied. -/
  default : Option Expr

/-- What the entries of an enum carry. -/
inductive EnumKind where
  /-- Values of a type. -/
  | basic (type : TypeExpr)
  /-- Instances of a data type. -/
  | data (name : String)

/-- An entry of an enum: at most one value, or the elements of an instance. -/
structure EntryDef where
  name : String
  elements : List Expr

/-- How a case of a switch is chosen. -/
inductive CaseTest where
  | values (values : List Expr)
  | type (type : TypeExpr) (inverted : Bool)
  | otherwise

mutual

/-- A statement and where it stands. -/
inductive Stmt where
  | mk (kind : StmtKind) (span : Span)

/-- Forms of statements. -/
inductive StmtKind where
  | none
  | declare (name : String) (type : TypeExpr) (init : Expr) (constant : Bool)
  /-- One declaration for each element of a value. -/
  | declareEach (names : List (String × TypeExpr)) (init : Expr) (constant : Bool)
  | block (body : List Stmt)
  /-- A block that `break` and `next` can leave. -/
  | doBlock (label : Option String) (body : List Stmt)
  | ifElse (branches : List Branch) (otherwise : Option (List Stmt))
  | switch (label : Option String) (subject : Expr) (cases : List Case)
  | whileLoop (label : Option String) (test : Expr) (body : List Stmt)
  | untilLoop (label : Option String) (test : Expr) (body : List Stmt)
  | forCount (label : Option String) (name : String) (type : TypeExpr) (start limit : Expr)
      (step : Option Expr) (body : List Stmt)
  | forEach (label : Option String) (name : String) (type : TypeExpr) (iterable : Expr)
      (body : List Stmt)
  | forEachOf (label : Option String) (names : List (String × TypeExpr)) (iterable : Expr)
      (body : List Stmt)
  | data (name : String) (fields : List FieldDef)
  | sub (definition : SubDef)
  | breakTo (label : Option String)
  | nextTo (label : Option String)
  | leave
  | yield (value : Expr)
  | alias (name : String) (type : TypeExpr)
  | enum (name : String) (kind : EnumKind) (entries : List EntryDef)
  | expression (expr : Expr)

/-- A test and what runs when it holds. -/
inductive Branch where
  | mk (test : Expr) (body : List Stmt)

/-- A case of a switch. -/
inductive Case where
  | mk (test : CaseTest) (body : List Stmt)

/-- The definition of one overload; a builtin one has its function in the library. -/
inductive SubDef where
  | mk (name : String) (params : List Param) (returns : TypeExpr) (body : List Stmt)
      (builtin : Bool)

end

namespace SubDef

/-- Name of the sub. -/
def name : SubDef → String
  | .mk name _ _ _ _ => name

/-- Parameters in order. -/
def params : SubDef → List Param
  | .mk _ params _ _ _ => params

/-- Written return type; an inferred one stands for `none`. -/
def returns : SubDef → TypeExpr
  | .mk _ _ returns _ _ => returns

/-- Statements of the body. -/
def body : SubDef → List Stmt
  | .mk _ _ _ body _ => body

/-- Whether the library supplies the function. -/
def builtin : SubDef → Bool
  | .mk _ _ _ _ builtin => builtin

end SubDef

namespace StmtKind

/-- Words for a statement in error traces. -/
def describe : StmtKind → String
  | .none => "empty statement"
  | .declare .. => "declaration"
  | .declareEach .. => "destructuring declaration"
  | .block _ => "block"
  | .doBlock .. => "do block"
  | .ifElse .. => "if"
  | .switch .. => "switch"
  | .whileLoop .. => "while loop"
  | .untilLoop .. => "until loop"
  | .forCount .. => "for loop"
  | .forEach .. | .forEachOf .. => "for-each loop"
  | .data .. => "data declaration"
  | .sub _ => "sub declaration"
  | .breakTo _ => "break"
  | .nextTo _ => "next"
  | .leave => "return"
  | .yield _ => "yield"
  | .alias .. => "type alias"
  | .enum .. => "enum declaration"
  | .expression _ => "expression"

end StmtKind

namespace Stmt

/-- Form of a statement. -/
def kind : Stmt → StmtKind
  | .mk kind _ => kind

/-- Place of a statement. -/
def span : Stmt → Span
  | .mk _ span => span

/-- A statement that no text spells. -/
def generated (kind : StmtKind) : Stmt := .mk kind .nowhere

end Stmt

end BasicScript
