import LiveTuner.Decimal.Written
import LiveTuner.Text.Quoted

/-!
# Values of the wrong shape

A definition, an update and the settings are read from data values. Where a value does not have
the shape that is asked for, the reader reports a `Mismatch`: what was found and what was expected.

JSON and MessagePack name two of the shapes differently, so the wording of a mismatch depends on
the format the value came in.

## Main definitions

* `Found`, `Expected` — the shapes of values, as found and as asked for
* `Mismatch` — a difference between the two
* `Mismatch.message` — its wording in a `Format`
-/

namespace LiveTuner

/-- The format a value came in. -/
inductive Format where
  /-- Text records. -/
  | json
  /-- Binary payloads. -/
  | messagePack
deriving DecidableEq, Repr

/-- A value as a complaint describes it. -/
inductive Found where
  /-- No value. -/
  | null
  /-- A truth value. -/
  | bool (b : Bool)
  /-- An integer. -/
  | integer (n : Int)
  /-- Another number. -/
  | real (x : Binary64)
  /-- A text. -/
  | text (s : String)
  /-- Octets that need not be a text. -/
  | octets
  /-- A sequence. -/
  | sequence
  /-- Values under keys. -/
  | map
  /-- A value of a type of the application's own. -/
  | extension
deriving DecidableEq, Repr

/-- The wording of a found value. -/
def Found.message (format : Format) : Found → String
  | .null => match format with
    | .json => "null"
    | .messagePack => "unit value"
  | .bool b => s!"boolean `{b}`"
  | .integer n => s!"integer `{n}`"
  | .real x => match format with
    | .json => s!"floating point `{x.text .data}`"
    | .messagePack => s!"floating point `{x.text .pointed}`"
  | .text s => s!"string {quoted s}"
  | .octets => "byte array"
  | .sequence => "sequence"
  | .map => "map"
  | .extension => "newtype struct"

/-- What a reader asks for. -/
inductive Expected where
  /-- A parameter definition. -/
  | definition
  /-- The settings of the program. -/
  | settings
  /-- The choice of a node. -/
  | choice
  /-- An integer of 64 bits with a sign. -/
  | integer
  /-- A number. -/
  | real
  /-- A text. -/
  | text
  /-- A truth value. -/
  | bool
  /-- A sequence. -/
  | sequence
  /-- Values under keys. -/
  | map
  /-- A pair. -/
  | pair
  /-- Any data value. -/
  | value
  /-- A key that is a text. -/
  | key
deriving DecidableEq, Repr

/-- The wording of what is asked for. -/
def Expected.message : Expected → String
  | .definition => "struct WireParam"
  | .settings => "struct Config"
  | .choice => "struct ChosenNode"
  | .integer => "i64"
  | .real => "f64"
  | .text => "a string"
  | .bool => "a boolean"
  | .sequence => "a sequence"
  | .map => "a map"
  | .pair => "a tuple of size 2"
  | .value => "any valid JSON value"
  | .key => "a string key"

/-- What a value of several alternatives is. -/
inductive Alternatives where
  /-- One bound or a bound for each index. -/
  | bound
  /-- A parameter value. -/
  | value
deriving DecidableEq, Repr

/-- The wording of a choice of alternatives. -/
def Alternatives.message : Alternatives → String
  | .bound => "Bound"
  | .value => "ParamValue"

/-- A difference between the value found and the shape asked for. -/
inductive Mismatch where
  /-- The value has another type. -/
  | wrongType (found : Found) (expected : Expected)
  /-- The type is right but not the value. -/
  | wrongValue (found : Found) (expected : Expected)
  /-- A sequence of `length` items is too short for a record of `fields` fields. -/
  | shortRecord (length : Nat) (expected : Expected) (fields : Nat)
  /-- A sequence of `length` items is too short for a pair. -/
  | shortPair (length : Nat)
  /-- A sequence of `length` items is longer than the record that it stands for. -/
  | longRecord (length : Nat)
  /-- A field is absent. -/
  | missingField (name : String)
  /-- A field comes twice. -/
  | duplicateField (name : String)
  /-- The value fits none of the alternatives. -/
  | noAlternative (alternatives : Alternatives)
deriving DecidableEq, Repr

/-- The wording of a mismatch. -/
def Mismatch.message (format : Format) : Mismatch → String
  | .wrongType found expected =>
    s!"invalid type: {found.message format}, expected {expected.message}"
  | .wrongValue found expected =>
    s!"invalid value: {found.message format}, expected {expected.message}"
  | .shortRecord length expected fields =>
    let noun := if fields = 1 then "element" else "elements"
    s!"invalid length {length}, expected {expected.message} with {fields} {noun}"
  | .shortPair length => s!"invalid length {length}, expected {Expected.pair.message}"
  | .longRecord length => s!"invalid length {length}, expected fewer elements in array"
  | .missingField name => s!"missing field `{name}`"
  | .duplicateField name => s!"duplicate field `{name}`"
  | .noAlternative alternatives =>
    s!"data did not match any variant of untagged enum {alternatives.message}"

end LiveTuner
