import MiniJava.Target.Stmt

/-!
# Python modules

A module is a sequence of classes and of runs of loose statements, with two blank lines wherever a
class begins or ends between two of them. A module with an entry class runs that class's `main`
when it is started as a program.
-/

namespace MiniJava.Target

inductive Chunk where
  | definition (stmt : Stmt)
  | script (body : List Stmt)

namespace Chunk

def isDefinition : Chunk → Bool
  | definition _ => true
  | script _ => false

def lines : Chunk → List Line
  | definition stmt => stmt.lines 0
  | script body => Stmt.allLines 0 body

end Chunk

structure Module where
  chunks : List Chunk
  entry : Option String

namespace Module

def gap : List Line := [.blank, .blank]

/-- The chunks behind a chunk that is a class or not. -/
def linesAfter (afterDefinition : Bool) : List Chunk → List Line
  | [] => []
  | chunk :: rest =>
    (if chunk.isDefinition || afterDefinition then gap else []) ++ chunk.lines ++
      linesAfter chunk.isDefinition rest

def chunkLines : List Chunk → List Line
  | [] => []
  | chunk :: rest => chunk.lines ++ linesAfter chunk.isDefinition rest

def entryLines : Option String → List Line
  | none => []
  | some name => gap ++ [⟨0, "if __name__ == \"__main__\":"⟩, ⟨1, name ++ ".main([])"⟩]

def lines (m : Module) : List Line := chunkLines m.chunks ++ entryLines m.entry

def toText (m : Module) : String := String.join (m.lines.map Line.toText)

end Module

end MiniJava.Target
