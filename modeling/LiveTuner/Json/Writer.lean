import LiveTuner.Json.Basic
import LiveTuner.Decimal.Written

/-!
# Written data values

Data values are written without blanks where another program reads them, and over indented lines
where a person edits them.

## Main definitions

* `Json.escapedChar`, `Json.textChars` — a text between quotes
* `Json.chars`, `Json.compact` — a value without blanks
* `Json.pretty` — a value over lines, two blanks per level
-/

namespace LiveTuner.Json

/-- The digit of a number below 16. -/
def hexDigit (n : Nat) : Char := Nat.digitChar (n % 16)

/-- How a character stands in a written text: quotes, backslashes and controls are escaped, all
else stands for itself. -/
def escapedChar (c : Char) : List Char :=
  if c = '"' then ['\\', '"']
  else if c = '\\' then ['\\', '\\']
  else if c = '\x08' then ['\\', 'b']
  else if c = '\x0c' then ['\\', 'f']
  else if c = '\n' then ['\\', 'n']
  else if c = '\r' then ['\\', 'r']
  else if c = '\t' then ['\\', 't']
  else if c.toNat < 0x20 then
    ['\\', 'u', '0', '0', hexDigit (c.toNat / 16), hexDigit c.toNat]
  else [c]

/-- A text between quotes. -/
def textChars (s : String) : List Char := '"' :: s.toList.flatMap escapedChar ++ ['"']

/-- A truth value. -/
def boolChars (b : Bool) : List Char :=
  if b then ['t', 'r', 'u', 'e'] else ['f', 'a', 'l', 's', 'e']

/-- An integer in decimal digits. -/
def integerChars (n : Int) : List Char :=
  if n < 0 then '-' :: Nat.toDigits 10 n.natAbs else Nat.toDigits 10 n.natAbs

/-- A finite number. -/
def realChars (x : FiniteReal) : List Char := (x.val.text .data).toList

mutual

/-- The value without blanks. -/
def chars : Json → List Char
  | null => ['n', 'u', 'l', 'l']
  | bool b => boolChars b
  | integer n => integerChars n.val
  | real x => realChars x
  | string s => textChars s
  | array items => '[' :: itemChars items ++ [']']
  | object members => '\x7b' :: memberChars members ++ ['\x7d']

/-- The values of a sequence, with commas between them. -/
def itemChars : List Json → List Char
  | [] => []
  | [v] => chars v
  | v :: rest => chars v ++ ',' :: itemChars rest

/-- Keys with their values, with commas between them. -/
def memberChars : List (String × Json) → List Char
  | [] => []
  | [(k, v)] => textChars k ++ ':' :: chars v
  | (k, v) :: rest => textChars k ++ ':' :: chars v ++ ',' :: memberChars rest

end

/-- The value without blanks, as a text. -/
def compact (v : Json) : String := String.ofList (chars v)

/-- A line break and the blanks at the start of a line of the given level. -/
def lineStart (level : Nat) : List Char := '\n' :: List.replicate (2 * level) ' '

mutual

/-- The value over lines, within the given level; an empty sequence or object stays on its line. -/
def prettyChars (level : Nat) : Json → List Char
  | array [] => ['[', ']']
  | array items => '[' :: prettyItems (level + 1) items ++ lineStart level ++ [']']
  | object [] => ['\x7b', '\x7d']
  | object members => '\x7b' :: prettyMembers (level + 1) members ++ lineStart level ++ ['\x7d']
  | null => ['n', 'u', 'l', 'l']
  | bool b => boolChars b
  | integer n => integerChars n.val
  | real x => realChars x
  | string s => textChars s

/-- The values of a sequence, each on lines of its own. -/
def prettyItems (level : Nat) : List Json → List Char
  | [] => []
  | [v] => lineStart level ++ prettyChars level v
  | v :: rest => lineStart level ++ prettyChars level v ++ ',' :: prettyItems level rest

/-- Keys with their values, each on lines of its own. -/
def prettyMembers (level : Nat) : List (String × Json) → List Char
  | [] => []
  | [(k, v)] => lineStart level ++ textChars k ++ ':' :: ' ' :: prettyChars level v
  | (k, v) :: rest =>
    lineStart level ++ textChars k ++ ':' :: ' ' :: prettyChars level v
      ++ ',' :: prettyMembers level rest

end

/-- The value over lines, as a text. -/
def pretty (v : Json) : String := String.ofList (prettyChars 0 v)

end LiveTuner.Json
