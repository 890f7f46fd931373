/-!
# Commands

Without arguments the program greets. A view of a source text is asked for by name, with an
optional file and, for the views that have a JSON form, an optional flag for it. Each option may
be given once. A file name may stand behind its option, behind an equals sign or, for the short
option, right behind the letter; one that stands by itself does not begin with a dash.
-/

namespace MiniJava

inductive View where
  | tokens | tree | diagnostics | python
deriving DecidableEq, Repr, Inhabited

namespace View

def name : View → String
  | tokens => "tokens"
  | tree => "ast"
  | diagnostics => "check"
  | python => "py"

def ofName? (text : String) : Option View :=
  [tokens, tree, diagnostics, python].find? fun view => view.name = text

/-- Views that can be had as text and as JSON. -/
def hasJson : View → Bool
  | tokens | diagnostics => true
  | tree | python => false

end View

inductive Command where
  | greet
  | view (shown : View) (file : Option String) (json : Bool)
deriving DecidableEq, Repr, Inhabited

namespace Command

inductive Flag where
  | json
  | file (path : String)
deriving DecidableEq, Repr

def Flag.path? : Flag → Option String
  | json => none
  | file path => some path

/-- A file name in the same argument as its option. -/
def attachedPath? (arg : List Char) : Option String :=
  match arg with
  | '-' :: '-' :: 'f' :: 'i' :: 'l' :: 'e' :: '=' :: path => some (String.ofList path)
  | '-' :: 'f' :: '=' :: path => some (String.ofList path)
  | '-' :: 'f' :: c :: path => some (String.ofList (c :: path))
  | _ => none

/-- An argument that can stand by itself as a file name. -/
def isValue (arg : String) : Bool := arg = "-" || arg.toList.head? ≠ some '-'

def flags : List String → Option (List Flag)
  | [] => some []
  | ["--"] => some []
  | "--json" :: rest => (flags rest).map (.json :: ·)
  | "--file" :: path :: rest => if isValue path then (flags rest).map (.file path :: ·) else none
  | "-f" :: path :: rest => if isValue path then (flags rest).map (.file path :: ·) else none
  | arg :: rest => (attachedPath? arg.toList).bind fun path => (flags rest).map (.file path :: ·)

/-- A view with its flags: none twice, no empty file name, and JSON only where it is had. -/
def ofFlags? (view : View) (flags : List Flag) : Option Command :=
  let paths := flags.filterMap Flag.path?
  let json := flags.count .json
  if paths.length ≤ 1 && !paths.contains "" && json ≤ 1 && (json = 0 || view.hasJson) then
    some (.view view paths.head? (json = 1))
  else none

/-- The command that the arguments spell, or none if they are bad usage. -/
def ofArgs? : List String → Option Command
  | [] => some .greet
  | ["--"] => some .greet
  | name :: rest => (View.ofName? name).bind fun view => (flags rest).bind (ofFlags? view)

end Command

end MiniJava
