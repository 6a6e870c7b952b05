import LiveTuner.Json.Number

/-!
# Reading data values

The reader takes one value from the start of a text. Nesting is bounded: a value within 127
sequences or objects is read, a deeper one is refused before it is entered.

## Main definitions

* `Json.readText` — a text within quotes
* `Json.readValue` — the value at the start of a text
* `Json.read` — a text that is one value and blanks
-/

namespace LiveTuner.Json

/-- Whether the character may stand between the parts of a value. -/
def isGap (c : Char) : Bool := c == ' ' || c == '\n' || c == '\t' || c == '\r'

/-- The text after the gaps at its start. -/
def skipGaps (text : List Char) : List Char := text.dropWhile isGap

/-- Reads the rest of the word `null`, `true` or `false`. -/
def readWord {α : Type} (value : α) (word text : List Char) : Reading α :=
  match word, text with
  | [], rest => .ok (value, rest)
  | _ :: _, [] => stop .endInValue []
  | w :: word, c :: rest =>
    if c = w then readWord value word rest else stopAt .otherWord (c :: rest)

/-! ### Texts -/

/-- The value of a hexadecimal digit. -/
def hexValue? (c : Char) : Option Nat :=
  if '0' ≤ c ∧ c ≤ '9' then some (c.toNat - '0'.toNat)
  else if 'a' ≤ c ∧ c ≤ 'f' then some (c.toNat - 'a'.toNat + 10)
  else if 'A' ≤ c ∧ c ≤ 'F' then some (c.toNat - 'A'.toNat + 10)
  else none

/-- The number that four hexadecimal digits spell. -/
def hexNumber? (a b c d : Char) : Option Nat := do
  let a ← hexValue? a
  let b ← hexValue? b
  let c ← hexValue? c
  let d ← hexValue? d
  pure (((a * 16 + b) * 16 + c) * 16 + d)

/-- Stops where four hexadecimal digits should be: four octets are looked at, so a shorter text
ends too early. -/
def stopInHex {α : Type} (text : List Char) : Except Stop α :=
  if Utf8.octetCount text < 4 then stop .endInText [] else .error ⟨.invalidEscape, text, 4⟩

/-- The character that a backslash and one letter stand for. -/
def simpleEscape? (c : Char) : Option Char :=
  if c = '"' ∨ c = '\\' ∨ c = '/' then some c
  else if c = 'b' then some '\x08'
  else if c = 'f' then some '\x0c'
  else if c = 'n' then some '\n'
  else if c = 'r' then some '\r'
  else if c = 't' then some '\t'
  else none

/-- Puts a character in front of a text that was read. -/
def consChar (c : Char) (reading : Reading (List Char)) : Reading (List Char) :=
  reading.map fun (cs, rest) => (c :: cs, rest)

/-- Stops after the first half of a character because no escape with the second half follows. -/
def stopAfterHalf {α : Type} (text : List Char) : Except Stop α :=
  match text with
  | [] => stop .endInText []
  | '\\' :: [] => stop .endInText []
  | '\\' :: rest => stopAt .endOfEscape rest
  | rest => stopAt .endOfEscape rest

/-- Reads a text after its opening quote. An escape of four digits stands for a character or, by two
such escapes, for the two halves of one. -/
def readText : List Char → Reading (List Char)
  | [] => stop .endInText []
  | '"' :: rest => .ok ([], rest)
  | '\\' :: 'u' :: text =>
    match text with
    | a :: b :: c :: d :: rest =>
      match hexNumber? a b c d with
      | none => stopInHex (a :: b :: c :: d :: rest)
      | some n =>
        if 0xdc00 ≤ n ∧ n ≤ 0xdfff then stop .loneSurrogate rest
        else if n < 0xd800 ∨ 0xdbff < n then consChar (Char.ofNat n) (readText rest)
        else
          match rest with
          | '\\' :: 'u' :: text =>
            match text with
            | a :: b :: c :: d :: rest =>
              match hexNumber? a b c d with
              | none => stopInHex (a :: b :: c :: d :: rest)
              | some m =>
                if m < 0xdc00 ∨ 0xdfff < m then stop .loneSurrogate rest
                else
                  consChar (Char.ofNat (0x10000 + (n - 0xd800) * 0x400 + (m - 0xdc00)))
                    (readText rest)
            | text => stopInHex text
          | rest => stopAfterHalf rest
    | text => stopInHex text
  | '\\' :: [] => stop .endInText []
  | '\\' :: c :: rest =>
    match simpleEscape? c with
    | some e => consChar e (readText rest)
    | none => stopAt .invalidEscape (c :: rest)
  | c :: rest =>
    if c.toNat < 0x20 then stop .controlCharacter rest else consChar c (readText rest)

/-- Reads a text after its opening quote, as a string. -/
def readString (text : List Char) : Reading String :=
  (readText text).map fun (cs, rest) => (String.ofList cs, rest)

/-! ### Sequences and objects -/

/-- Finds the next item of a sequence: the text where it begins, or none and the text after the
closing bracket. -/
def nextItem (first : Bool) (text : List Char) : Reading Bool :=
  match skipGaps text with
  | [] => stop .endInList []
  | c :: rest =>
    if c = ']' then .ok (false, rest)
    else if first then .ok (true, c :: rest)
    else if c = ',' then
      match skipGaps rest with
      | [] => stop .endInValue []
      | ']' :: rest => stopAt .trailingComma (']' :: rest)
      | rest => .ok (true, rest)
    else stopAt .listNotEnded (c :: rest)

/-- Reads the items of a sequence by `readItem`, at most `bound` of them. -/
def readItems {α : Type} (readItem : List Char → Reading α) :
    Nat → Bool → List Char → Except Stop (List α × List Char)
  | 0, _, text => stop .listNotEnded text
  | bound + 1, first, text => do
    match ← nextItem first text with
    | (false, rest) => pure ([], rest)
    | (true, text) =>
      let (v, rest) ← readItem text
      let (vs, rest) ← readItems readItem bound false rest
      pure (v :: vs, rest)

/-- Finds the next key of an object: the text after its opening quote, or none and the text after
the closing brace. -/
def nextKey (first : Bool) (text : List Char) : Reading Bool :=
  match skipGaps text with
  | [] => stop .endInObject []
  | c :: rest =>
    if c = '\x7d' then .ok (false, rest)
    else if first then
      if c = '"' then .ok (true, rest) else stopAt .keyNotText (c :: rest)
    else if c = ',' then
      match skipGaps rest with
      | [] => stop .endInValue []
      | d :: rest =>
        if d = '"' then .ok (true, rest)
        else if d = '\x7d' then stopAt .trailingComma (d :: rest)
        else stopAt .keyNotText (d :: rest)
    else stopAt .objectNotEnded (c :: rest)

/-- Reads the colon after a key. -/
def readColon (text : List Char) : Reading Unit :=
  match skipGaps text with
  | [] => stop .endInObject []
  | ':' :: rest => .ok ((), rest)
  | rest => stopAt .noColon rest

/-- Reads the keys and values of an object, at most `bound` of them. -/
def readMembers (readItem : List Char → Reading Json) :
    Nat → Bool → List Char → Except Stop (List (String × Json) × List Char)
  | 0, _, text => stop .objectNotEnded text
  | bound + 1, first, text => do
    match ← nextKey first text with
    | (false, rest) => pure ([], rest)
    | (true, text) =>
      let (key, rest) ← readString text
      let (_, rest) ← readColon rest
      let (v, rest) ← readItem rest
      let (members, rest) ← readMembers readItem bound false rest
      pure ((key, v) :: members, rest)

/-- The object that keys and values make up when they are set in order. -/
def ofMembers (members : List (String × Json)) : List (String × Json) :=
  members.foldl (fun object (key, value) => put key value object) []

/-! ### Values -/

/-- The greatest number of sequences and objects around a value. -/
def maxNesting : Nat := 127

/-- Reads the value at the start of a text, with at most `nesting` sequences and objects around any
part of it. -/
def readValue (nesting : Nat) (text : List Char) : Reading Json :=
  match skipGaps text with
  | [] => stop .endInValue []
  | c :: rest =>
    if c = 'n' then readWord null ['u', 'l', 'l'] rest
    else if c = 't' then readWord (bool true) ['r', 'u', 'e'] rest
    else if c = 'f' then readWord (bool false) ['a', 'l', 's', 'e'] rest
    else if c = '-' then readNumber true rest
    else if (digitValue? c).isSome then readNumber false (c :: rest)
    else if c = '"' then (readString rest).map fun (s, rest) => (.string s, rest)
    else if c = '[' then
      match nesting with
      | 0 => stopAt .tooDeep (c :: rest)
      | nesting + 1 =>
        (readItems (fun text => readValue nesting text) (rest.length + 1) true rest).map
          fun (items, rest) => (array items, rest)
    else if c = '\x7b' then
      match nesting with
      | 0 => stopAt .tooDeep (c :: rest)
      | nesting + 1 =>
        (readMembers (fun text => readValue nesting text) (rest.length + 1) true rest).map
          fun (members, rest) => (object (ofMembers members), rest)
    else stopAt .noValue (c :: rest)
termination_by structural nesting

/-- Accepts only gaps. -/
def readEnd (text : List Char) : Except Stop Unit :=
  match skipGaps text with
  | [] => .ok ()
  | rest => stopAt .trailingCharacters rest

/-- The value that a text is. -/
def read (text : List Char) : Except Complaint Json :=
  let reading : Except Stop Json := do
    let (v, rest) ← readValue maxNesting text
    readEnd rest
    pure v
  reading.mapError (Stop.complaint text)

/-- The value that a text is, if it is one. -/
def ofText? (text : List Char) : Option Json := (read text).toOption

end LiveTuner.Json
