/-!
# Positions in a source text

A position is a line and a column, both counted from one in characters. Reading a newline starts
the next line; any other character moves one column on.
-/

namespace MiniJava

structure Position where
  line : Nat
  column : Nat
deriving DecidableEq, Repr, Inhabited

namespace Position

/-- Where every source text begins. -/
def start : Position := ⟨1, 1⟩

def after (p : Position) (c : Char) : Position :=
  if c = '\n' then ⟨p.line + 1, 1⟩ else ⟨p.line, p.column + 1⟩

/-- The position behind a piece of text that begins at `p`. -/
def advance (p : Position) (text : List Char) : Position := text.foldl after p

@[simp] theorem advance_nil (p : Position) : p.advance [] = p := rfl

@[simp] theorem advance_cons (p : Position) (c : Char) (text : List Char) :
    p.advance (c :: text) = (p.after c).advance text := rfl

theorem advance_append (p : Position) (s t : List Char) :
    p.advance (s ++ t) = (p.advance s).advance t := List.foldl_append

/-- Written `line:column`. -/
def toText (p : Position) : String := toString p.line ++ ":" ++ toString p.column

/-- A position as error messages give it. -/
def describe (p : Position) : String :=
  "line " ++ toString p.line ++ ", column " ++ toString p.column

end Position

end MiniJava
