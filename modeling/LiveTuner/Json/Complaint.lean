import LiveTuner.Mismatch
import LiveTuner.Text.Utf8

/-!
# Complaints about written data

Reading a text as data stops at the first fault. A `Stop` says what is wrong and how much of the
text is left there; a `Complaint` tells a person the line and the column instead.

## Main definitions

* `Json.Fault` — what is wrong
* `Json.Stop` — a fault with the text left where reading stopped
* `Json.Complaint` — a fault with line and column, both counted as an editor shows them
-/

namespace LiveTuner.Json

/-- What is wrong with a text. -/
inductive Fault where
  /-- The text ends where a value should begin or go on. -/
  | endInValue
  /-- The text ends within a sequence. -/
  | endInList
  /-- The text ends within an object. -/
  | endInObject
  /-- The text ends within quotes. -/
  | endInText
  /-- No value begins here. -/
  | noValue
  /-- A word begins like `null`, `true` or `false` but is another one. -/
  | otherWord
  /-- A key is not a text. -/
  | keyNotText
  /-- The colon after a key is absent. -/
  | noColon
  /-- A value in a sequence is followed by neither a comma nor the end. -/
  | listNotEnded
  /-- A value in an object is followed by neither a comma nor the end. -/
  | objectNotEnded
  /-- A comma comes before the end of a sequence or an object. -/
  | trailingComma
  /-- Something comes after the value. -/
  | trailingCharacters
  /-- A number is malformed. -/
  | invalidNumber
  /-- A number is larger than every finite one. -/
  | numberOutOfRange
  /-- A backslash begins no escape. -/
  | invalidEscape
  /-- An escape stands for one half of a character alone. -/
  | loneSurrogate
  /-- The first half of a character is not followed by an escape. -/
  | endOfEscape
  /-- A control character stands within quotes. -/
  | controlCharacter
  /-- Sequences and objects are nested too deeply. -/
  | tooDeep
  /-- The value has not the shape that is asked for. -/
  | mismatch (m : Mismatch)
deriving DecidableEq, Repr

/-- The wording of a fault. -/
def Fault.message : Fault → String
  | .endInValue => "EOF while parsing a value"
  | .endInList => "EOF while parsing a list"
  | .endInObject => "EOF while parsing an object"
  | .endInText => "EOF while parsing a string"
  | .noValue => "expected value"
  | .otherWord => "expected ident"
  | .keyNotText => "key must be a string"
  | .noColon => "expected `:`"
  | .listNotEnded => "expected `,` or `]`"
  | .objectNotEnded => "expected `,` or `\x7d`"
  | .trailingComma => "trailing comma"
  | .trailingCharacters => "trailing characters"
  | .invalidNumber => "invalid number"
  | .numberOutOfRange => "number out of range"
  | .invalidEscape => "invalid escape"
  | .loneSurrogate => "lone leading surrogate in hex escape"
  | .endOfEscape => "unexpected end of hex escape"
  | .controlCharacter => "control character (\\u0000-\\u001F) found while parsing a string"
  | .tooDeep => "recursion limit exceeded"
  | .mismatch m => m.message .json

/-- A fault, the text left where reading stopped, and how many octets further the fault lies. -/
structure Stop where
  /-- What is wrong. -/
  fault : Fault
  /-- The text that was not read. -/
  rest : List Char
  /-- The octets of that text which the complaint counts as read. -/
  ahead : Nat
deriving DecidableEq, Repr

/-- What reading a text as a value gives: the value with the text after it, or a stop. -/
abbrev Reading (α : Type) := Except Stop (α × List Char)

/-- Stops before the text. -/
def stop {α : Type} (fault : Fault) (rest : List Char) : Except Stop α :=
  .error ⟨fault, rest, 0⟩

/-- Stops at the first octet of the text, if there is one. -/
def stopAt {α : Type} (fault : Fault) (rest : List Char) : Except Stop α :=
  .error ⟨fault, rest, 1⟩

/-- The line and column reached from a given line and column by `octets` octets of the text. The
column counts octets on the line; a text that ends earlier is read to its end. -/
def advance (line column : Nat) : Nat → List Char → Nat × Nat
  | _, [] => (line, column)
  | octets, c :: rest =>
    if octets = 0 then (line, column)
    else if c = '\n' then advance (line + 1) 0 (octets - 1) rest
    else advance line (column + min octets c.utf8Size) (octets - c.utf8Size) rest

/-- A fault with the line and the column where it was noticed. -/
structure Complaint where
  /-- What is wrong. -/
  fault : Fault
  /-- The line, counted from one. -/
  line : Nat
  /-- The octets of that line read so far. -/
  column : Nat
deriving DecidableEq, Repr

/-- The complaint about a text that a stop within it amounts to. -/
def Stop.complaint (text : List Char) (s : Stop) : Complaint :=
  let (line, column) := advance 1 0 (Utf8.octetCount text - Utf8.octetCount s.rest + s.ahead) text
  ⟨s.fault, line, column⟩

/-- The wording of a complaint. -/
def Complaint.message (c : Complaint) : String :=
  s!"{c.fault.message} at line {c.line} column {c.column}"

end LiveTuner.Json
