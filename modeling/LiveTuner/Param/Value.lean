import LiveTuner.Json.Writer
import LiveTuner.Mismatch

/-!
# Parameter values

The value of a parameter as it travels between the program and a node. Integers and other numbers
stay apart, so that a value goes back to the node in the type it came in.

## Main definitions

* `Value` — a parameter value
* `Value.ofJson?`, `Value.toJson` — values as data
* `Value.text` — a value in messages
* `Value.inspected` — a value within a described interaction
* `Value.same` — equality of values, numbers compared as numbers
-/

namespace LiveTuner

/-- A parameter value. -/
inductive Value where
  /-- No value: groups of parameters have none. -/
  | null
  /-- A truth value. -/
  | bool (b : Bool)
  /-- An integer. -/
  | int (n : Int64)
  /-- Another number. -/
  | real (x : Binary64)
  /-- A sequence of integers. -/
  | ints (ns : List Int64)
  /-- A sequence of numbers. -/
  | reals (xs : List Binary64)
  /-- A text. -/
  | text (s : String)
deriving DecidableEq, Repr, Inhabited

namespace Value

/-- The value as a number, if it is one. -/
def toReal? : Value → Option Binary64
  | int n => some (.ofInt n.toInt)
  | real x => some x
  | _ => none

/-- The value as a sequence of numbers, if it is one. -/
def toReals? : Value → Option (List Binary64)
  | ints ns => some (ns.map fun n => .ofInt n.toInt)
  | reals xs => some xs
  | _ => none

/-- The name of the value's type in messages. -/
def typeName : Value → String
  | null => "null"
  | bool _ => "boolean"
  | int _ | real _ => "number"
  | ints _ | reals _ => "number sequence"
  | text _ => "string"

/-- The parameter value that a data value stands for. An integer that does not fit 64 bits with a
sign is a number; a sequence is one of integers if all its items are. -/
def ofJson? : Json → Option Value
  | .null => some null
  | .bool b => some (bool b)
  | .integer n =>
    match n.toInt64? with
    | some i => some (int i)
    | none => some (real (.ofInt n.val))
  | .real x => some (real x.val)
  | .string s => some (text s)
  | .array items =>
    match items.mapM Json.toInt64? with
    | some ns => some (ints ns)
    | none => (items.mapM Json.toReal?).map reals
  | .object _ => none

/-- The value as data. -/
def toJson : Value → Json
  | null => .null
  | bool b => .bool b
  | int n => .ofInt64 n
  | real x => .ofReal x
  | ints ns => .array (ns.map .ofInt64)
  | reals xs => .array (xs.map .ofReal)
  | text s => .string s

/-- The value in messages. -/
def message : Value → String
  | null => "null"
  | bool b => if b then "true" else "false"
  | int n => toString n.toInt
  | real x => x.plainText
  | ints ns => ",".intercalate (ns.map fun n => toString n.toInt)
  | reals xs => ",".intercalate (xs.map Binary64.plainText)
  | text s => s

/-- The value within a described interaction, with its type. -/
def inspected : Value → String
  | null => "Null"
  | bool b => if b then "Bool(true)" else "Bool(false)"
  | int n => s!"Int({n.toInt})"
  | real x => s!"Float({x.text .inspected})"
  | ints ns => "IntVector([" ++ ", ".intercalate (ns.map fun n => toString n.toInt) ++ "])"
  | reals xs => "Vector([" ++ ", ".intercalate (xs.map fun x => x.text .inspected) ++ "])"
  | text s => s!"Text({quoted s})"

/-- Whether two sequences of numbers are equal as numbers, item by item. -/
def sameReals : List Binary64 → List Binary64 → Bool
  | [], [] => true
  | x :: xs, y :: ys => x.eq y && sameReals xs ys
  | _, _ => false

/-- Whether two values are equal, where numbers compare as numbers: the zeros are equal, and what is
no number differs from itself. Values of different types differ. -/
def same : Value → Value → Bool
  | real x, real y => x.eq y
  | reals xs, reals ys => sameReals xs ys
  | v, w => v == w

end Value

end LiveTuner
