import MiniJava.Text.CharClass
import MiniJava.Token.Basic

/-!
# Lexemes

A rule looks at the first character of the remaining text and at the characters behind it. When it
applies it gives the kind of the lexeme and how many of the characters behind the first one belong
to it. The rules are tried in a fixed order and the first that applies wins, so comments stand
before operators, print calls before plain words, and longer operators before their beginnings. The
last rule makes an error lexeme of any character but a newline, so every text can be read.
-/

namespace MiniJava.Lexeme

open Text

abbrev Rule := Char → List Char → Option (TokenKind × Nat)

/-- The length of a text up to and including the first `*/`. -/
def blockEnd : List Char → Option Nat
  | '*' :: '/' :: _ => some 2
  | _ :: rest => (blockEnd rest).map (· + 1)
  | [] => none

def comment : Rule
  | '/', '/' :: rest => some (.comment, 1 + (rest.takeWhile (· != '\n')).length)
  | '/', '*' :: rest => (blockEnd rest).map fun n => (.comment, 1 + n)
  | _, _ => none

def newline : Rule := fun c _ => if c = '\n' then some (.newline, 0) else none

def isBlank (c : Char) : Bool := c == ' ' || c == '\t' || c == '\r'

def blanks : Rule := fun c rest =>
  if isBlank c then some (.whitespace, (rest.takeWhile isBlank).length) else none

/-- The length of a string's text up to and including its closing quote. A backslash takes the next
character with it, and the string ends on its own line. -/
def stringEnd : List Char → Option Nat
  | [] => none
  | '"' :: _ => some 1
  | '\n' :: _ => none
  | ['\\'] => none
  | '\\' :: '\n' :: _ => none
  | '\\' :: _ :: rest => (stringEnd rest).map (· + 2)
  | _ :: rest => (stringEnd rest).map (· + 1)

def stringLiteral : Rule := fun c rest =>
  if c = '"' then (stringEnd rest).map (.stringLiteral, ·) else none

/-- The length of a character's text and its closing quote. -/
def charEnd : List Char → Option Nat
  | '\\' :: c :: '\'' :: _ => if c = '\n' then none else some 3
  | c :: '\'' :: _ => if c = '\'' || c = '\\' || c = '\n' then none else some 2
  | _ => none

def charLiteral : Rule := fun c rest =>
  if c = '\'' then (charEnd rest).map (.charLiteral, ·) else none

def printPath : List Char := "System.out.".toList

def printMethods : List String := ["println", "printf", "print"]

def printCall : Rule := fun c rest =>
  if printPath.isPrefixOf (c :: rest) then
    let tail := (c :: rest).drop printPath.length
    let name := tail.takeWhile isIdentifierPart
    if printMethods.contains (String.ofList name) && endsWord (tail.drop name.length) then
      some (.printCall, printPath.length - 1 + name.length)
    else none
  else none

/-- Texts with their kinds, from texts grouped by kind. -/
def entries (groups : List (TokenKind × List String)) : List (String × TokenKind) :=
  groups.flatMap fun group => group.2.map fun text => (text, group.1)

/-- Words that are not identifiers, with their kinds. -/
def keywords : List (String × TokenKind) := entries [
  (.dataType, ["int", "float", "double", "boolean", "char", "string", "String", "long", "short",
    "byte"]),
  (.conditional, ["if", "else"]),
  (.loop, ["for", "while", "do"]),
  (.exception, ["try", "catch", "throw", "finally"]),
  (.accessModifier, ["public", "private", "protected", "static", "final", "abstract"]),
  (.dataStructure, ["array", "list", "set", "map", "queue", "stack"]),
  (.reservedWord, ["class", "void", "return", "new", "this", "super", "instanceof", "switch",
    "case", "default", "break", "continue"]),
  (.booleanLiteral, ["true", "false"]),
  (.nullLiteral, ["null"])]

/-- A word is a keyword only if it ends at a word boundary; an identifier may stop before a letter
that identifiers do not have. -/
def word : Rule := fun c rest =>
  if isIdentifierStart c then
    let tail := rest.takeWhile isIdentifierPart
    let kind :=
      if endsWord (rest.drop tail.length) then
        (keywords.lookup (String.ofList (c :: tail))).getD .identifier
      else .identifier
    some (kind, tail.length)
  else none

def digitRun (text : List Char) : Nat := (text.takeWhile isDecimalDigit).length

def fractionLength : List Char → Option Nat
  | '.' :: rest => if digitRun rest = 0 then none else some (1 + digitRun rest)
  | _ => none

def signLength : List Char → Nat
  | '+' :: _ => 1
  | '-' :: _ => 1
  | _ => 0

def exponentLength : List Char → Option Nat
  | [] => none
  | c :: rest =>
    let digits := digitRun (rest.drop (signLength rest))
    if (c = 'e' || c = 'E') && digits ≠ 0 then some (1 + signLength rest + digits) else none

/-- Extends the first `n` characters of a number by an exponent if there is one and it ends at a
word boundary, or else keeps them if they do. -/
def withExponent (text : List Char) (n : Nat) : Option Nat :=
  match exponentLength (text.drop n) with
  | some k => if endsWord (text.drop (n + k)) then some (n + k) else plain
  | none => plain
where
  plain : Option Nat := if endsWord (text.drop n) then some n else none

/-- Digits, a fraction and an exponent, ending at a word boundary; the fraction is given up if the
number would not end at a boundary with it. -/
def number : Rule := fun c rest =>
  if isDecimalDigit c then
    let digits := digitRun rest
    let length :=
      match (fractionLength (rest.drop digits)).bind fun k => withExponent rest (digits + k) with
      | some n => some n
      | none => withExponent rest digits
    length.map (.number, ·)
  else none

/-- Operators and punctuation, each before its own beginnings. -/
def symbols : List (String × TokenKind) := entries [
  (.compoundOperator, [">>>=", "<<=", ">>=", "+=", "-=", "*=", "/=", "%=", "&=", "|=", "^="]),
  (.bitwiseOperator, [">>>", "<<", ">>"]),
  (.incrementOperator, ["++", "--"]),
  (.logicalOperator, ["&&", "||"]),
  (.relationalOperator, ["==", "!=", "<=", ">=", "<", ">"]),
  (.logicalOperator, ["!"]),
  (.bitwiseOperator, ["&", "|", "^", "~"]),
  (.arithmeticOperator, ["+", "-", "*", "/", "%"]),
  (.assignmentOperator, ["="]),
  (.delimiter, [";", "\x7b", "\x7d", "(", ")", ",", ":", "."]),
  (.openBracket, ["["]),
  (.closeBracket, ["]"])]

def symbol : Rule := fun c rest =>
  (symbols.find? fun entry => entry.1.toList.isPrefixOf (c :: rest)).map fun entry =>
    (entry.2, entry.1.length - 1)

/-- Newlines have a rule of their own. -/
def unknown : Rule := fun c _ => if c = '\n' then none else some (.error, 0)

def rules : List Rule :=
  [comment, newline, blanks, stringLiteral, charLiteral, printCall, word, number, symbol, unknown]

/-- The kind of the lexeme that starts with `c`, and how many characters of `rest` it takes. -/
def read? (c : Char) (rest : List Char) : Option (TokenKind × Nat) :=
  rules.findSome? fun rule => rule c rest

end MiniJava.Lexeme
