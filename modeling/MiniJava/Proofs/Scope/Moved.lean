import MiniJava.Proofs.Syntax.Moved
import MiniJava.Scope.SymbolTable

/-!
# Symbol tables with their positions moved

Moving the positions of the declarations in a table changes neither what a name means nor its type,
and every change of a table can be made before or after the move.
-/

namespace MiniJava

variable (f : Position → Position)

def Symbol.moved (symbol : Symbol) : Symbol := { symbol with position := f symbol.position }

def Scope.moved (scope : Scope) : Scope := scope.map fun entry => (entry.1, entry.2.moved f)

namespace Scope

theorem lookup_moved (scope : Scope) (name : String) :
    (scope.moved f).lookup name = (scope.lookup name).map (Symbol.moved f) := by
  induction scope with
  | nil => rfl
  | cons entry rest ih =>
      change List.lookup name ((entry.1, entry.2.moved f) :: Scope.moved f rest) = _
      rw [List.lookup_cons, List.lookup_cons]
      cases name == entry.1 with
      | true => rfl
      | false => exact ih

theorem mark_moved (name : String) (scope : Scope) :
    (scope.moved f).mark name = (scope.mark name).moved f := by
  unfold mark moved
  rw [List.map_map, List.map_map]
  refine List.map_congr_left fun entry _ => ?_
  simp only [Function.comp]
  split <;> rfl

end Scope

def SymbolTable.moved (table : SymbolTable) : SymbolTable :=
  ⟨table.current.moved f, table.enclosing.map (Scope.moved f)⟩

namespace SymbolTable

theorem empty_moved : empty.moved f = empty := rfl

theorem scopes_moved (table : SymbolTable) :
    (table.moved f).scopes = table.scopes.map (Scope.moved f) := rfl

theorem enter_moved (table : SymbolTable) : (table.moved f).enter = table.enter.moved f := rfl

theorem depth_moved (table : SymbolTable) : (table.moved f).depth = table.depth := by
  rw [depth, depth, scopes_moved, List.length_map]

theorem leave_moved (table : SymbolTable) : (table.moved f).leave = table.leave.moved f := by
  obtain ⟨current, enclosing⟩ := table
  cases enclosing <;> rfl

theorem declare_moved (table : SymbolTable) (name : String) (symbol : Symbol) :
    (table.moved f).declare name (symbol.moved f) =
      match table.declare name symbol with
      | .ok extended => .ok (extended.moved f)
      | .error position => .error (f position) := by
  have hcurrent : (table.moved f).current = table.current.moved f := rfl
  rw [declare, declare, hcurrent, Scope.lookup_moved]
  cases table.current.lookup name <;> rfl

theorem resolveIn_moved (name : String) (scopes : List Scope) :
    resolveIn name (scopes.map (Scope.moved f)) =
      (resolveIn name scopes).map (Prod.map id (Symbol.moved f)) := by
  induction scopes with
  | nil => rfl
  | cons scope outer ih =>
      rw [List.map_cons, resolveIn, resolveIn, Scope.lookup_moved, ih, List.length_map]
      cases scope.lookup name <;> rfl

theorem resolve?_moved (table : SymbolTable) (name : String) :
    (table.moved f).resolve? name = (table.resolve? name).map (Prod.map id (Symbol.moved f)) :=
  resolveIn_moved f name table.scopes

theorem lookup?_moved (table : SymbolTable) (name : String) :
    (table.moved f).lookup? name = (table.lookup? name).map (Symbol.moved f) := by
  rw [lookup?, lookup?, resolve?_moved, Option.map_map, Option.map_map]
  rfl

theorem markIn_moved (name : String) (scopes : List Scope) :
    markIn name (scopes.map (Scope.moved f)) = (markIn name scopes).map (Scope.moved f) := by
  induction scopes with
  | nil => rfl
  | cons scope outer ih =>
      rw [List.map_cons, markIn, markIn, Scope.lookup_moved, Option.isSome_map, ih,
        Scope.mark_moved]
      split <;> rfl

theorem markInitialized_moved (table : SymbolTable) (name : String) :
    (table.moved f).markInitialized name = (table.markInitialized name).moved f := by
  rw [markInitialized, markInitialized]
  change (if ((table.current.moved f).lookup name).isSome then _ else _) = _
  rw [Scope.lookup_moved, Option.isSome_map]
  split
  · change SymbolTable.mk ((table.current.moved f).mark name) _ = _
    rw [Scope.mark_moved]
    rfl
  · change SymbolTable.mk _ (markIn name (table.enclosing.map (Scope.moved f))) = _
    rw [markIn_moved]
    rfl

theorem typeOf_moved (table : SymbolTable) (e : Expr) :
    (table.moved f).typeOf (e.moved f) = table.typeOf e := by
  have hname : ∀ name, ((table.moved f).lookup? name).map Symbol.type =
      (table.lookup? name).map Symbol.type := by
    intro name
    rw [lookup?_moved, Option.map_map]
    rfl
  induction e with
  | literal => rfl
  | name text => exact hname text
  | binary op lhs rhs ihl ihr => rw [Expr.moved, typeOf, typeOf, ihl, ihr]
  | unary op operand ih => rw [Expr.moved, typeOf, typeOf, ih]
  | assign target => exact hname target
  | step target => exact hname target

end SymbolTable

end MiniJava
