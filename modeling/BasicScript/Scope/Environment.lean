import BasicScript.Scope.Sub

/-! # Scopes

A scope holds variables, overloads and named types, each table with one entry
per name. A path names a scope together with the scopes around it, so lookup
walks the path outwards. The stack of active paths has the global scope at its
bottom for ever.
-/

namespace BasicScript

/-- Tables of one scope. -/
structure Scope where
  cells : List (String × CellId)
  /-- All overloads, in the order of their declarations. -/
  subs : List Sub
  datas : List DataDecl
  enums : List EnumDecl
  aliases : List (String × Ty)

namespace Scope

/-- A scope without declarations. -/
def blank : Scope := ⟨[], [], [], [], []⟩

/-- The variable of a name. -/
def cell? (s : Scope) (name : String) : Option CellId := s.cells.lookup name

/-- The overloads of a name. -/
def overloads (s : Scope) (name : String) : List Sub := s.subs.filter (·.name == name)

/-- The data declaration of a name. -/
def data? (s : Scope) (name : String) : Option DataDecl := s.datas.find? (·.name == name)

/-- The enum declaration of a name. -/
def enum? (s : Scope) (name : String) : Option EnumDecl := s.enums.find? (·.name == name)

/-- The type that a name stands for: a data type, an enum or an alias. -/
def namedType? (s : Scope) (name : String) : Option Ty :=
  match s.data? name with
  | some d => some (.data d.name)
  | none =>
    match s.enum? name with
    | some d => some (.enum d.name)
    | none => s.aliases.lookup name

end Scope

/-- All scopes, and the stack of those that are active above the global one. -/
structure Environment where
  scopes : Array Scope
  active : List ScopePath

/-- Path of the global scope. -/
def globalPath : ScopePath := [⟨0⟩]

namespace Environment

/-- The global scope alone. -/
def fresh : Environment := ⟨#[.blank], []⟩

/-- The scope behind an identity. -/
def scope (env : Environment) (id : ScopeId) : Scope := env.scopes[id.index]?.getD .blank

/-- Path of the innermost active scope. -/
def current (env : Environment) : ScopePath := env.active.headD globalPath

/-- Number of active scopes. -/
def depth (env : Environment) : Nat := env.active.length + 1

/-- Activates a new scope below a path. -/
def pushBelow (env : Environment) (parent : ScopePath) : Environment :=
  let id : ScopeId := ⟨env.scopes.size⟩
  ⟨env.scopes.push .blank, (id :: parent) :: env.active⟩

/-- Activates a new scope below the innermost one. -/
def push (env : Environment) : Environment := env.pushBelow env.current

/-- Leaves the innermost scope; the global scope is never left. -/
def pop (env : Environment) : Environment := { env with active := env.active.tail }

/-- Whether a scope is still reached from an active one. -/
def isLive (env : Environment) (path : ScopePath) : Bool :=
  path.head?.all fun id => env.current.contains id || env.active.any fun p => p.contains id

variable (env : Environment)

/-- The first hit from the current scope outwards. -/
def search {α : Type} (find : Scope → Option α) : Option α :=
  env.current.findSome? fun id => find (env.scope id)

/-- The visible variable of a name. -/
def cell? (name : String) : Option CellId := env.search (·.cell? name)

/-- All visible overloads of a name, those of the innermost scope first. -/
def overloads (name : String) : List Sub :=
  env.current.flatMap fun id => (env.scope id).overloads name

/-- Whether an overload of a name is visible. -/
def hasSub (name : String) : Bool :=
  env.current.any fun id => (env.scope id).subs.any (·.name == name)

/-- The visible data declaration of a name. -/
def data? (name : String) : Option DataDecl := env.search (·.data? name)

/-- The visible enum declaration of a name. -/
def enum? (name : String) : Option EnumDecl := env.search (·.enum? name)

/-- The type that a name stands for. -/
def namedType? (name : String) : Option Ty := env.search (·.namedType? name)

/-- Identity of the innermost active scope. -/
def currentId : ScopeId := env.current.headD ⟨0⟩

/-- Tables of the innermost active scope. -/
def currentScope : Scope := env.scope env.currentId

/-- Changes the tables of the innermost active scope. -/
def modifyCurrent (f : Scope → Scope) : Environment :=
  let id := env.currentId
  { env with scopes := env.scopes.modify id.index f }

/-- Whether the current scope lacks a variable of a name. -/
def takesVariable (name : String) : Bool := (env.currentScope.cell? name).isNone

/-- Adds a variable to the current scope. -/
def addVariable (name : String) (cell : CellId) : Environment :=
  env.modifyCurrent fun s => { s with cells := (name, cell) :: s.cells }

/-- Whether the current scope lacks an overload of a name with a signature. -/
def takesSub (name signature : String) : Bool :=
  !(env.currentScope.overloads name).any (·.signature == signature)

/-- Adds an overload to the current scope. -/
def addSub (sub : Sub) : Environment :=
  env.modifyCurrent fun s => { s with subs := s.subs ++ [sub] }

/-- Whether the current scope lacks a data declaration of a name. -/
def takesData (name : String) : Bool := (env.currentScope.data? name).isNone

/-- Adds a data declaration to the current scope. -/
def addData (decl : DataDecl) : Environment :=
  env.modifyCurrent fun s => { s with datas := decl :: s.datas }

/-- Whether the current scope lacks an enum of a name. -/
def takesEnum (name : String) : Bool := (env.currentScope.enum? name).isNone

/-- Adds an enum to the current scope. -/
def addEnum (decl : EnumDecl) : Environment :=
  env.modifyCurrent fun s => { s with enums := decl :: s.enums }

/-- Whether the current scope lacks an alias of a name. -/
def takesAlias (name : String) : Bool := (env.currentScope.aliases.lookup name).isNone

/-- Adds an alias to the current scope. -/
def addAlias (name : String) (type : Ty) : Environment :=
  env.modifyCurrent fun s => { s with aliases := (name, type) :: s.aliases }

end Environment

end BasicScript
