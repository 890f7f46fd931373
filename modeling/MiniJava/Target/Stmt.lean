import MiniJava.Syntax.Operator
import MiniJava.Target.Expr

/-!
# Python statements

The statements of emitted code and the lines they are written in. A line has an indentation level;
the statements under a line that ends in a colon stand one level deeper, and where there are none
`pass` stands instead.
-/

namespace MiniJava.Target

/-- The operator of an update such as `x += 1`. -/
inductive UpdateOp where
  | floorDiv
  | applying (op : BinaryOp)
deriving DecidableEq, Repr, Inhabited

def UpdateOp.symbol : UpdateOp → String
  | floorDiv => "//="
  | applying op => op.symbol ++ "="

structure Handler (σ : Type) where
  exception : String
  name : String
  body : List σ
deriving Repr

mutual

inductive Stmt where
  | assign (target value : Expr)
  | update (target : Expr) (op : UpdateOp) (value : Expr)
  | expression (expr : Expr)
  | ifElse (condition : Expr) (body : List Stmt) (alternative : Alternative)
  | whileLoop (condition : Expr) (body : List Stmt)
  | forRange (counter start stop : Expr) (step : Int) (body : List Stmt)
  | tryExcept (body : List Stmt) (handlers : List (Handler Stmt)) (cleanup : Option (List Stmt))
  | print (value : Option Expr) (newline : Bool)
  | printFormatted (format : Expr) (values : List Expr)
  | returns (value : Option Expr)
  | breaks
  | continues
  | function (isStatic : Bool) (name : String) (params : List String) (body : List Stmt)
  | classDef (name : String) (body : List Stmt)

/-- What follows the body of an `if`. -/
inductive Alternative where
  | nothing
  | elseIf (condition : Expr) (body : List Stmt) (alternative : Alternative)
  | otherwise (body : List Stmt)

end

structure Line where
  level : Nat
  text : String
deriving DecidableEq, Repr, Inhabited

namespace Line

def blank : Line := ⟨0, ""⟩

def toText (line : Line) : String :=
  String.join (List.replicate line.level "    ") ++ line.text ++ "\n"

end Line

def joined (separator : String) (texts : List String) : String := separator.intercalate texts

/-- A tuple; a tuple of one value keeps its comma. -/
def tuple : List Expr → String
  | [value] => "(" ++ value.toText ++ ",)"
  | values => "(" ++ joined ", " (values.map Expr.toText) ++ ")"

def rangeArguments (start stop : Expr) (step : Int) : String :=
  start.toText ++ ", " ++ stop.toText ++ if step = 1 then "" else ", " ++ toString step

def printCall (value : Option Expr) (newline : Bool) : String :=
  let ending := if newline then [] else ["end=\"\""]
  "print(" ++ joined ", " ((value.map Expr.toText).toList ++ ending) ++ ")"

namespace Stmt

def isDefinition : Stmt → Bool
  | function .. | classDef .. => true
  | _ => false

mutual

def lines (level : Nat) : Stmt → List Line
  | assign target value => [⟨level, target.toText ++ " = " ++ value.toText⟩]
  | update target op value =>
    [⟨level, target.toText ++ " " ++ op.symbol ++ " " ++ value.toText⟩]
  | expression expr => [⟨level, expr.toText⟩]
  | ifElse condition body alternative =>
    ⟨level, "if " ++ condition.toText ++ ":"⟩ :: suite (level + 1) body ++
      alternativeLines level alternative
  | whileLoop condition body =>
    ⟨level, "while " ++ condition.toText ++ ":"⟩ :: suite (level + 1) body
  | forRange counter start stop step body =>
    ⟨level, "for " ++ counter.toText ++ " in range(" ++ rangeArguments start stop step ++ "):"⟩ ::
      suite (level + 1) body
  | tryExcept body handlers none =>
    ⟨level, "try:"⟩ :: suite (level + 1) body ++ handlerLines level handlers
  | tryExcept body handlers (some cleanup) =>
    ⟨level, "try:"⟩ :: suite (level + 1) body ++ handlerLines level handlers ++
      ⟨level, "finally:"⟩ :: suite (level + 1) cleanup
  | print value newline => [⟨level, printCall value newline⟩]
  | printFormatted format values =>
    [⟨level, "print(" ++ Expr.enclose 10 false format.precedence format.toText ++ " % " ++
      tuple values ++ ", end=\"\")"⟩]
  | returns none => [⟨level, "return"⟩]
  | returns (some value) => [⟨level, "return " ++ value.toText⟩]
  | breaks => [⟨level, "break"⟩]
  | continues => [⟨level, "continue"⟩]
  | function isStatic name params body =>
    (if isStatic then [⟨level, "@staticmethod"⟩] else []) ++
      ⟨level, "def " ++ name ++ "(" ++ joined ", " params ++ "):"⟩ :: suite (level + 1) body
  | classDef name body => ⟨level, "class " ++ name ++ ":"⟩ :: classSuite (level + 1) body

def allLines (level : Nat) : List Stmt → List Line
  | [] => []
  | first :: rest => lines level first ++ allLines level rest

def suite (level : Nat) : List Stmt → List Line
  | [] => [⟨level, "pass"⟩]
  | first :: rest => lines level first ++ allLines level rest

/-- A method or class that is not the first in its class body has a blank line before it. -/
def classSuite (level : Nat) : List Stmt → List Line
  | [] => [⟨level, "pass"⟩]
  | first :: rest => lines level first ++ spacedLines level rest

def spacedLines (level : Nat) : List Stmt → List Line
  | [] => []
  | first :: rest =>
    (if first.isDefinition then [.blank] else []) ++ lines level first ++ spacedLines level rest

def alternativeLines (level : Nat) : Alternative → List Line
  | .nothing => []
  | .elseIf condition body alternative =>
    ⟨level, "elif " ++ condition.toText ++ ":"⟩ :: suite (level + 1) body ++
      alternativeLines level alternative
  | .otherwise body => ⟨level, "else:"⟩ :: suite (level + 1) body

def handlerLines (level : Nat) : List (Handler Stmt) → List Line
  | [] => []
  | ⟨exception, name, body⟩ :: rest =>
    ⟨level, "except " ++ exception ++ " as " ++ name ++ ":"⟩ :: suite (level + 1) body ++
      handlerLines level rest

end

end Stmt

end MiniJava.Target
