import MiniJava.Typing.Operator

/-!
# Symbol tables

A symbol table is a stack of scopes with at least one scope on it. A name means its declaration in
the innermost scope that has one. Scopes are numbered from the outermost, which is number zero and
is never left. The type of an expression is known as far as the declarations in scope tell it.
-/

namespace MiniJava

structure Symbol where
  type : ValueType
  position : Position
  initialized : Bool
  constant : Bool
deriving DecidableEq, Repr, Inhabited

abbrev Scope := List (String × Symbol)

namespace Scope

/-- Marks the declaration of `name` as assigned. -/
def mark (name : String) (scope : Scope) : Scope :=
  scope.map fun entry =>
    if entry.1 = name then (entry.1, { entry.2 with initialized := true }) else entry

end Scope

structure SymbolTable where
  current : Scope
  enclosing : List Scope
deriving DecidableEq, Repr, Inhabited

namespace SymbolTable

def empty : SymbolTable := ⟨[], []⟩

/-- The scopes from the innermost to the outermost. -/
def scopes (table : SymbolTable) : List Scope := table.current :: table.enclosing

def depth (table : SymbolTable) : Nat := table.scopes.length

def enter (table : SymbolTable) : SymbolTable := ⟨[], table.scopes⟩

def leave (table : SymbolTable) : SymbolTable :=
  match table.enclosing with
  | [] => table
  | outer :: rest => ⟨outer, rest⟩

/-- Adds a declaration to the innermost scope, or gives the position of the one that the scope
already has for the name. -/
def declare (table : SymbolTable) (name : String) (symbol : Symbol) :
    Except Position SymbolTable :=
  match table.current.lookup name with
  | some earlier => .error earlier.position
  | none => .ok { table with current := (name, symbol) :: table.current }

/-- The declaration of a name in a list of scopes, the innermost first, with its scope's number. -/
def resolveIn (name : String) : List Scope → Option (Nat × Symbol)
  | [] => none
  | scope :: outer =>
    match scope.lookup name with
    | some symbol => some (outer.length, symbol)
    | none => resolveIn name outer

def resolve? (table : SymbolTable) (name : String) : Option (Nat × Symbol) :=
  resolveIn name table.scopes

def lookup? (table : SymbolTable) (name : String) : Option Symbol :=
  (table.resolve? name).map Prod.snd

def markIn (name : String) : List Scope → List Scope
  | [] => []
  | scope :: outer =>
    if (scope.lookup name).isSome then scope.mark name :: outer else scope :: markIn name outer

/-- Marks what a name means as assigned. -/
def markInitialized (table : SymbolTable) (name : String) : SymbolTable :=
  if (table.current.lookup name).isSome then { table with current := table.current.mark name }
  else { table with enclosing := markIn name table.enclosing }

def typeOf (table : SymbolTable) : Expr → Option ValueType
  | .literal value _ => some (.ofLiteral value)
  | .name name _ => (table.lookup? name).map Symbol.type
  | .binary op lhs rhs => (op.typing (table.typeOf lhs) (table.typeOf rhs)).type?
  | .unary op operand => (op.typing (table.typeOf operand)).type?
  | .assign target _ _ _ => (table.lookup? target).map Symbol.type
  | .step target _ _ _ => (table.lookup? target).map Symbol.type

@[simp] theorem depth_empty : empty.depth = 1 := rfl

theorem depth_pos (table : SymbolTable) : 0 < table.depth := Nat.succ_pos _

@[simp] theorem depth_enter (table : SymbolTable) : table.enter.depth = table.depth + 1 := rfl

@[simp] theorem leave_enter (table : SymbolTable) : table.enter.leave = table := rfl

end SymbolTable

end MiniJava
