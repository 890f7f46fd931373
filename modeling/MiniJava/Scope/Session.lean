import MiniJava.Scope.SymbolTable

/-!
# Sessions with a symbol table

Actions on a symbol table, each with its answer, and what a sequence of them answers.
-/

namespace MiniJava.SymbolTable

inductive Action where
  | enter
  | leave
  | declare (name : String) (symbol : Symbol)
  | lookup (name : String)
  | resolve (name : String)
  | mark (name : String)
deriving Repr

inductive Answer where
  | done
  | declared
  | taken (previous : Position)
  | found (symbol : Option Symbol)
  | resolved (place : Option (Nat × Symbol))
  | marked (present : Bool)
deriving DecidableEq, Repr

def perform (table : SymbolTable) : Action → Answer × SymbolTable
  | .enter => (.done, table.enter)
  | .leave => (.done, table.leave)
  | .declare name symbol =>
    match table.declare name symbol with
    | .ok extended => (.declared, extended)
    | .error previous => (.taken previous, table)
  | .lookup name => (.found (table.lookup? name), table)
  | .resolve name => (.resolved (table.resolve? name), table)
  | .mark name => (.marked (table.lookup? name).isSome, table.markInitialized name)

/-- Each action's answer with the table behind it. -/
def session (table : SymbolTable) : List Action → List (Answer × SymbolTable)
  | [] => []
  | action :: rest =>
    let outcome := table.perform action
    outcome :: session outcome.2 rest

end MiniJava.SymbolTable
