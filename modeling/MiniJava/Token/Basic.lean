import MiniJava.Position

/-!
# Tokens

A token is a lexeme of the source text with its lexical kind and the position of its first
character. Comments, blanks and newlines are kinds too: they are read like any other lexeme and
then left out of the token table.
-/

namespace MiniJava

inductive TokenKind where
  | comment
  | dataType
  | conditional
  | loop
  | exception
  | accessModifier
  | dataStructure
  | printCall
  | stringLiteral
  | charLiteral
  | number
  | reservedWord
  | booleanLiteral
  | nullLiteral
  | identifier
  | arithmeticOperator
  | assignmentOperator
  | compoundOperator
  | logicalOperator
  | relationalOperator
  | incrementOperator
  | bitwiseOperator
  | delimiter
  | openBracket
  | closeBracket
  | newline
  | whitespace
  | error
deriving DecidableEq, Repr, Inhabited

namespace TokenKind

def all : List TokenKind :=
  [comment, dataType, conditional, loop, exception, accessModifier, dataStructure, printCall,
    stringLiteral, charLiteral, number, reservedWord, booleanLiteral, nullLiteral, identifier,
    arithmeticOperator, assignmentOperator, compoundOperator, logicalOperator, relationalOperator,
    incrementOperator, bitwiseOperator, delimiter, openBracket, closeBracket, newline, whitespace,
    error]

/-- The name under which a kind is listed. -/
def label : TokenKind → String
  | comment => "COMMENT"
  | dataType => "DATA_TYPE"
  | conditional => "CONDITIONAL"
  | loop => "LOOP"
  | exception => "EXCEPTION"
  | accessModifier => "ACCESS_MODIFIER"
  | dataStructure => "DATA_STRUCTURE"
  | printCall => "PRINT_CALL"
  | stringLiteral => "STRING_LITERAL"
  | charLiteral => "CHAR_LITERAL"
  | number => "NUMBER"
  | reservedWord => "RESERVED_WORD"
  | booleanLiteral => "BOOLEAN_LITERAL"
  | nullLiteral => "NULL_LITERAL"
  | identifier => "IDENTIFIER"
  | arithmeticOperator => "ARITHMETIC_OPERATOR"
  | assignmentOperator => "ASSIGNMENT_OPERATOR"
  | compoundOperator => "COMPOUND_OPERATOR"
  | logicalOperator => "LOGICAL_OPERATOR"
  | relationalOperator => "RELATIONAL_OPERATOR"
  | incrementOperator => "INCREMENT_OPERATOR"
  | bitwiseOperator => "BITWISE_OPERATOR"
  | delimiter => "DELIMITER"
  | openBracket => "OPEN_BRACKET"
  | closeBracket => "CLOSE_BRACKET"
  | newline => "NEWLINE"
  | whitespace => "WHITESPACE"
  | error => "ERROR"

def ofLabel? (text : String) : Option TokenKind := all.find? fun kind => kind.label = text

/-- Kinds that are read but left out of the token table. -/
def isSkipped : TokenKind → Bool
  | comment | newline | whitespace => true
  | _ => false

theorem mem_all (kind : TokenKind) : kind ∈ all := by cases kind <;> decide

end TokenKind

structure Token where
  kind : TokenKind
  lexeme : String
  position : Position
deriving DecidableEq, Repr, Inhabited

end MiniJava
