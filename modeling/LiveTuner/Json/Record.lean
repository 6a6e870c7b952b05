import LiveTuner.Json.Skip

/-!
# Reading records

A record is read straight from its text. It stands either as an object, whose fields come in any
order, at most once each, among fields that are not known; or as a sequence of the fields in their
order, of which the last may be absent.

A complaint about one value points to that value. A complaint about the record as a whole (a field
that comes twice or is absent) points to where the record ends, or to the first fault before that.

## Main definitions

* `Json.RecordShape` — the fields of a record and how each is read
* `Json.readRecord` — the record at the start of a text
* `Json.readStringField`, `Json.readOptionalString`, `Json.readBool` — readers of fields
-/

namespace LiveTuner.Json

/-! ### Values of a known type -/

/-- The complaint that the value at the start of the text has another type than is asked for. The
value is read, unless it is a sequence or an object, since its own faults come first. -/
def stopAtOther {α : Type} (expected : Expected) (text : List Char) : Except Stop α :=
  let complain (found : Found) (rest : List Char) : Except Stop α :=
    stop (.mismatch (.wrongType found expected)) rest
  let complainNumber (reading : Reading Json) : Except Stop α :=
    match reading with
    | .error s => .error s
    | .ok (integer n, rest) => complain (.integer n.val) rest
    | .ok (real x, rest) => complain (.real x.val) rest
    | .ok (_, rest) => complain .null rest
  match text with
  | [] => stop .noValue []
  | c :: rest =>
    if c = 'n' then (readWord () ['u', 'l', 'l'] rest).bind fun (_, rest) => complain .null rest
    else if c = 't' then
      (readWord () ['r', 'u', 'e'] rest).bind fun (_, rest) => complain (.bool true) rest
    else if c = 'f' then
      (readWord () ['a', 'l', 's', 'e'] rest).bind fun (_, rest) => complain (.bool false) rest
    else if c = '-' then complainNumber (readNumber true rest)
    else if (digitValue? c).isSome then complainNumber (readNumber false (c :: rest))
    else if c = '"' then (readString rest).bind fun (s, rest) => complain (.text s) rest
    else if c = '[' then complain .sequence (c :: rest)
    else if c = '\x7b' then complain .map (c :: rest)
    else stopAt .noValue (c :: rest)

/-- Reads a text. -/
def readStringField (text : List Char) : Reading String :=
  match skipGaps text with
  | [] => stop .endInValue []
  | '"' :: rest => readString rest
  | rest => stopAtOther .text rest

/-- Reads a text, or `null` for none. -/
def readOptionalString (text : List Char) : Reading (Option String) :=
  match skipGaps text with
  | 'n' :: rest => readWord none ['u', 'l', 'l'] rest
  | rest => (readStringField rest).map fun (s, rest) => (some s, rest)

/-- Reads a truth value. -/
def readBool (text : List Char) : Reading Bool :=
  match skipGaps text with
  | [] => stop .endInValue []
  | 't' :: rest => readWord true ['r', 'u', 'e'] rest
  | 'f' :: rest => readWord false ['a', 'l', 's', 'e'] rest
  | rest => stopAtOther .bool rest

/-! ### Records -/

/-- How one field of a record is read into what is known of the record so far. -/
structure FieldReader (σ : Type) where
  /-- The key of the field. -/
  name : String
  /-- Whether the field has been read. -/
  isRead : σ → Bool
  /-- Reads the value of the field. -/
  readInto : σ → List Char → Reading σ

/-- The fields of a record and how it is completed. -/
structure RecordShape (σ α : Type) where
  /-- What a reader of the record asks for. -/
  expected : Expected
  /-- The fields in order. -/
  fields : List (FieldReader σ)
  /-- What is known before any field is read. -/
  start : σ
  /-- The record, once all its fields have been read. -/
  complete : σ → Except Mismatch α

variable {σ α : Type}

/-- The outcome of reading the parts of a record: a fault of the text, a mismatch of the record,
or what was read; the last two with the text that follows. -/
abbrev Parts (α : Type) := Except Stop (Except Mismatch α × List Char)

/-- Reads keys and values up to the closing brace, which is left, at most `bound` of them. -/
def readFields (shape : RecordShape σ α) :
    Nat → Bool → σ → List Char → Except Stop (Except Mismatch σ × List Char)
  | 0, _, _, text => stop .objectNotEnded text
  | bound + 1, first, known, text => do
    match ← nextKey first text with
    | (false, rest) => pure (.ok known, '\x7d' :: rest)
    | (true, text) =>
      let (key, rest) ← readString text
      match shape.fields.find? (·.name = key) with
      | none =>
        let (_, rest) ← readColon rest
        let rest ← skipValue rest
        readFields shape bound false known rest
      | some field =>
        if field.isRead known then pure (.error (.duplicateField field.name), rest)
        else
          let (_, rest) ← readColon rest
          let (known, rest) ← field.readInto known rest
          readFields shape bound false known rest

/-- Reads the given fields in order up to the closing bracket, which is left. -/
def readPositions : List (FieldReader σ) → Bool → σ → List Char → Except Stop (σ × List Char)
  | [], _, known, text => pure (known, text)
  | field :: fields, first, known, text => do
    match ← nextItem first text with
    | (false, rest) => pure (known, ']' :: rest)
    | (true, text) =>
      let (known, rest) ← field.readInto known text
      readPositions fields false known rest

/-- Reads the end of a sequence that stands for a record. -/
def endOfPositions (text : List Char) : Except Stop (List Char) :=
  match skipGaps text with
  | [] => stop .endInList []
  | ']' :: rest => .ok rest
  | ',' :: rest =>
    match skipGaps rest with
    | ']' :: rest => stopAt .trailingComma (']' :: rest)
    | rest => stopAt .trailingCharacters rest
  | rest => stopAt .trailingCharacters rest

/-- Reads the end of an object that stands for a record. -/
def endOfFields (text : List Char) : Except Stop (List Char) :=
  match skipGaps text with
  | [] => stop .endInObject []
  | c :: rest =>
    if c = '\x7d' then .ok rest
    else if c = ',' then stopAt .trailingComma (c :: rest)
    else stopAt .trailingCharacters (c :: rest)

/-- The outcome of a record whose parts were read up to `text` and whose end is read by `readEnd`:
a mismatch is reported where that leaves off, and before a fault of the end itself. -/
def closeRecord (parts : Except Mismatch α) (ending : Except Stop (List Char)) : Reading α :=
  match parts, ending with
  | .ok record, .ok rest => .ok (record, rest)
  | .ok _, .error s => .error s
  | .error m, .ok rest => stop (.mismatch m) rest
  | .error m, .error s => stop (.mismatch m) s.rest

/-- Reads the record at the start of a text. -/
def readRecord (shape : RecordShape σ α) (text : List Char) : Except Stop (α × List Char) :=
  match skipGaps text with
  | [] => stop .endInValue []
  | c :: rest =>
    if c = '[' then do
      let (known, rest) ← readPositions shape.fields true shape.start rest
      closeRecord (shape.complete known) (endOfPositions rest)
    else if c = '\x7b' then do
      let (known, rest) ← readFields shape (rest.length + 1) true shape.start rest
      closeRecord (known.bind shape.complete) (endOfFields rest)
    else stopAtOther shape.expected (c :: rest)

/-- The record that a text is. -/
def readWholeRecord (shape : RecordShape σ α) (text : List Char) : Except Complaint α :=
  let reading : Except Stop α := do
    let (record, rest) ← readRecord shape text
    readEnd rest
    pure record
  reading.mapError (Stop.complaint text)

end LiveTuner.Json
