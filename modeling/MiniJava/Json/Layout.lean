import MiniJava.Json.Basic

/-!
# JSON text

Text with every member and element on a line of its own and two blanks for each level of nesting.
Strings escape the quote, the backslash and the control characters, and nothing else.
-/

namespace MiniJava.Json

def hexDigit (n : Nat) : Char := "0123456789abcdef".toList.getD n '0'

def escape (c : Char) : List Char :=
  if c = '"' then ['\\', '"']
  else if c = '\\' then ['\\', '\\']
  else if c = '\n' then ['\\', 'n']
  else if c = '\r' then ['\\', 'r']
  else if c = '\t' then ['\\', 't']
  else if c = '\x08' then ['\\', 'b']
  else if c = '\x0c' then ['\\', 'f']
  else if c.toNat < 32 then
    ['\\', 'u', '0', '0', hexDigit (c.toNat / 16), hexDigit (c.toNat % 16)]
  else [c]

def quoted (text : String) : List Char := '"' :: text.toList.flatMap escape ++ ['"']

/-- A new line at a level of nesting. -/
def newLine (level : Nat) : List Char := '\n' :: List.replicate (2 * level) ' '

mutual

def layout (level : Nat) : Json → List Char
  | null => "null".toList
  | bool true => "true".toList
  | bool false => "false".toList
  | count value => (toString value).toList
  | string value => quoted value
  | array [] => ['[', ']']
  | array (first :: rest) =>
    '[' :: newLine (level + 1) ++ layout (level + 1) first ++ moreElements (level + 1) rest ++
      newLine level ++ [']']
  | object [] => ['\x7b', '\x7d']
  | object ((key, value) :: rest) =>
    '\x7b' :: newLine (level + 1) ++ quoted key ++ [':', ' '] ++ layout (level + 1) value ++
      moreMembers (level + 1) rest ++ newLine level ++ ['\x7d']

def moreElements (level : Nat) : List Json → List Char
  | [] => []
  | next :: rest => ',' :: newLine level ++ layout level next ++ moreElements level rest

def moreMembers (level : Nat) : List (String × Json) → List Char
  | [] => []
  | (key, value) :: rest =>
    ',' :: newLine level ++ quoted key ++ [':', ' '] ++ layout level value ++
      moreMembers level rest

end

def toText (json : Json) : String := String.ofList (json.layout 0)

end MiniJava.Json
