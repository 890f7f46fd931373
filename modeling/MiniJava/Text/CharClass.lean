import MiniJava.Text.Ranges

/-!
# Characters and integers of the source language

Identifiers and keywords are spelled in ASCII, but a word ends only where no Unicode word character
follows, and numbers may be written with the decimal digits of any script. A 64-bit integer is read
from an optional sign and one or more ASCII digits; text of any other form and numbers out of range
are not integers.
-/

namespace MiniJava.Text

def inRanges (ranges : List (Nat × Nat)) (c : Char) : Bool :=
  ranges.any fun range => range.1 ≤ c.toNat && c.toNat ≤ range.2

def isAsciiLetter (c : Char) : Bool := ('a' ≤ c && c ≤ 'z') || ('A' ≤ c && c ≤ 'Z')

def isAsciiDigit (c : Char) : Bool := '0' ≤ c && c ≤ '9'

def isIdentifierStart (c : Char) : Bool := isAsciiLetter c || c == '_'

def isIdentifierPart (c : Char) : Bool := isIdentifierStart c || isAsciiDigit c

/-- A decimal digit of any script. -/
def isDecimalDigit (c : Char) : Bool :=
  if c.toNat < 128 then isAsciiDigit c else inRanges decimalDigitRanges c

/-- A character that words are made of, in any script. -/
def isWord (c : Char) : Bool :=
  if c.toNat < 128 then isIdentifierPart c else inRanges wordRanges c

/-- A word that stops before `rest` stops at a boundary. -/
def endsWord : List Char → Bool
  | [] => true
  | c :: _ => !isWord c

def digitValue (c : Char) : Nat := c.toNat - '0'.toNat

def digitsValue (digits : List Char) : Nat :=
  digits.foldl (fun value c => 10 * value + digitValue c) 0

def magnitude? (digits : List Char) : Option Nat :=
  if !digits.isEmpty && digits.all isAsciiDigit then some (digitsValue digits) else none

def signedValue? : List Char → Option Int
  | '+' :: digits => (magnitude? digits).map Int.ofNat
  | '-' :: digits => (magnitude? digits).map fun n => -Int.ofNat n
  | digits => (magnitude? digits).map Int.ofNat

/-- Whether 64 bits hold the integer. -/
def isInt64 (n : Int) : Bool := -9223372036854775808 ≤ n && n ≤ 9223372036854775807

def int64? (text : String) : Option Int := (signedValue? text.toList).filter isInt64

end MiniJava.Text
