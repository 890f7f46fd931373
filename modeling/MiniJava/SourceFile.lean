/-!
# Source files

A source file is a text in UTF-8. Reading one fails if there is no such file and if its bytes are
no such text.
-/

namespace MiniJava

inductive ReadFailure where
  | notFound
  | invalidText
deriving DecidableEq, Repr, Inhabited

def ReadFailure.describe : ReadFailure → String
  | notFound => "No such file or directory (os error 2)"
  | invalidText => "stream did not contain valid UTF-8"

structure ReadError where
  path : String
  failure : ReadFailure
deriving DecidableEq, Repr, Inhabited

def ReadError.message (error : ReadError) : String :=
  "Failed to read source '" ++ error.path ++ "': " ++ error.failure.describe

namespace SourceFile

/-- The text of a file with the given bytes, if there is such a file. -/
def text (path : String) : Option ByteArray → Except ReadError String
  | none => .error ⟨path, .notFound⟩
  | some bytes =>
    match String.fromUTF8? bytes with
    | none => .error ⟨path, .invalidText⟩
    | some text => .ok text

end SourceFile

end MiniJava
