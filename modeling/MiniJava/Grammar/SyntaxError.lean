import MiniJava.Token.Basic

/-!
# Syntax errors

Reading a token table stops at the first token the grammar does not allow. The error names what the
grammar asked for and the token that stands there; a token that is not part of the language at all
is reported by its character instead.
-/

namespace MiniJava

/-- What the grammar asked for. -/
inductive Expected where
  | lexeme (text : String)
  | identifier
  | type
  | statement
  | expression
  | classEnd
  | blockEnd
  | switchEnd
  | switchLabel
  | handler
deriving DecidableEq, Repr, Inhabited

def Expected.describe : Expected → String
  | .lexeme text => "'" ++ text ++ "'"
  | .identifier => "an identifier"
  | .type => "a type"
  | .statement => "a statement"
  | .expression => "an expression"
  | .classEnd => "'\x7d' closing the class"
  | .blockEnd => "'\x7d' closing the block"
  | .switchEnd => "'\x7d' closing the switch"
  | .switchLabel => "'case', 'default' or '\x7d'"
  | .handler => "'catch' or 'finally'"

inductive SyntaxError where
  | invalidCharacter (char : Char) (position : Position)
  | unexpectedToken (expected : Expected) (found : String) (position : Position)
  | unexpectedEnd (expected : Expected)
deriving DecidableEq, Repr, Inhabited

namespace SyntaxError

def message : SyntaxError → String
  | invalidCharacter char position =>
    "Invalid character '" ++ String.singleton char ++ "' at " ++ position.describe
  | unexpectedToken expected found position =>
    "Expected " ++ expected.describe ++ " but found '" ++ found ++ "' at " ++ position.describe
  | unexpectedEnd expected => "Expected " ++ expected.describe ++ " but reached end of input"

/-- The error at the next token of the table when `expected` was asked for. -/
def atNext (expected : Expected) : List Token → SyntaxError
  | [] => unexpectedEnd expected
  | token :: _ =>
    if token.kind = .error then
      invalidCharacter (token.lexeme.toList.headD '\x00') token.position
    else unexpectedToken expected token.lexeme token.position

end SyntaxError

end MiniJava
