import LiveTuner.Param.Id
import LiveTuner.Json.Writer
import LiveTuner.Mismatch

/-!
# Parameter definitions

A node describes a parameter by a record of optional fields. No field says what kind of parameter
it is; that follows from the fields that are there.

## Main definitions

* `Bound` — one bound, or a bound for each index of a sequence
* `Definition` — the record a node sends
* `Definition.ofJson` — reading a definition from data, with the first mismatch if it is none
* `Definition.toJson` — a definition as data; absent fields are left out
-/

namespace LiveTuner

/-- A bound of a number or of each number in a sequence. -/
inductive Bound where
  /-- The same bound for all. -/
  | uniform (x : Binary64)
  /-- A bound for each index. -/
  | perIndex (xs : List Binary64)
deriving DecidableEq, Repr

/-- A parameter as a node describes it. -/
structure Definition where
  /-- The id. -/
  id : ParamId
  /-- The name to show; a leading point marks a part of an optional value. -/
  name : String
  /-- The current value, null for a group. -/
  val : Json
  /-- The lower bound. -/
  min : Option Bound
  /-- The upper bound. -/
  max : Option Bound
  /-- Whether the scale is logarithmic. -/
  logScale : Option Bool
  /-- The step between positions. -/
  step : Option Binary64
  /-- The values to choose from. -/
  oneof : Option (List Json)
  /-- The parameters of a group by attribute. -/
  params : Option (List (String × Definition))
  /-- The attributes of a group that are not shown. -/
  hidden : Option (List String)

/-- A data value as a complaint describes it. -/
def Found.ofJson : Json → Found
  | .null => .null
  | .bool b => .bool b
  | .integer n => .integer n.val
  | .real x => .real x.val
  | .string s => .text s
  | .array _ => .sequence
  | .object _ => .map

namespace Definition

/-- The definition of an id, a name and a value alone. -/
def bare (id : ParamId) (name : String) (val : Json) : Definition :=
  ⟨id, name, val, none, none, none, none, none, none, none⟩

/-! ### Fields -/

/-- The complaint that a data value is not what is expected. -/
def mismatch {α : Type} (expected : Expected) (v : Json) : Except Mismatch α :=
  .error (.wrongType (.ofJson v) expected)

/-- Reads an id. -/
def readId (v : Json) : Except Mismatch ParamId :=
  match v with
  | .integer n =>
    match n.toInt64? with
    | some i => .ok ⟨i⟩
    | none => .error (.wrongValue (.integer n.val) .integer)
  | _ => mismatch .integer v

/-- Reads a text. -/
def readText (v : Json) : Except Mismatch String :=
  match v with
  | .string s => .ok s
  | _ => mismatch .text v

/-- Reads a truth value. -/
def readBool (v : Json) : Except Mismatch Bool :=
  match v with
  | .bool b => .ok b
  | _ => mismatch .bool v

/-- Reads a number. -/
def readReal (v : Json) : Except Mismatch Binary64 :=
  match v.toReal? with
  | some x => .ok x
  | none => mismatch .real v

/-- Reads a sequence whose items are read by `read`. -/
def readList {α : Type} (read : Json → Except Mismatch α) (v : Json) : Except Mismatch (List α) :=
  match v with
  | .array items => items.mapM read
  | _ => mismatch .sequence v

/-- Reads a bound. -/
def readBound (v : Json) : Except Mismatch Bound :=
  match v with
  | .array items =>
    match items.mapM Json.toReal? with
    | some xs => .ok (.perIndex xs)
    | none => .error (.noAlternative .bound)
  | v =>
    match v.toReal? with
    | some x => .ok (.uniform x)
    | none => .error (.noAlternative .bound)

/-- Reads an optional field, absent when it is null. -/
def readOptional {α : Type} (read : Json → Except Mismatch α) (v : Json) :
    Except Mismatch (Option α) :=
  match v with
  | .null => .ok none
  | v => (read v).map some

/-! ### Records -/

/-- What is known of a definition while its fields are read. -/
structure Draft where
  /-- The id, once read. -/
  id : Option ParamId
  /-- The name, once read. -/
  name : Option String
  /-- The other fields, in a definition of any id and name. -/
  others : Definition

/-- Nothing is known. -/
def Draft.empty : Draft := ⟨none, none, bare default "" .null⟩

/-- Reads a field other than the parameters of a group; a field of another name is passed over. -/
def Draft.set (draft : Draft) (field : String) (v : Json) : Except Mismatch Draft :=
  let others := draft.others
  match field with
  | "id" => (readId v).map fun id => { draft with id := some id }
  | "name" => (readText v).map fun name => { draft with name := some name }
  | "val" => .ok { draft with others := { others with val := v } }
  | "min" =>
    (readOptional readBound v).map fun b => { draft with others := { others with min := b } }
  | "max" =>
    (readOptional readBound v).map fun b => { draft with others := { others with max := b } }
  | "log_scale" =>
    (readOptional readBool v).map fun b => { draft with others := { others with logScale := b } }
  | "step" =>
    (readOptional readReal v).map fun x => { draft with others := { others with step := x } }
  | "oneof" =>
    (readOptional (readList .ok) v).map fun l => { draft with others := { others with oneof := l } }
  | "hidden" =>
    (readOptional (readList readText) v).map fun l =>
      { draft with others := { others with hidden := l } }
  | _ => .ok draft

/-- Sets the parameters of a group. -/
def Draft.setParams (draft : Draft) (params : Option (List (String × Definition))) : Draft :=
  { draft with others := { draft.others with params := params } }

/-- The definition, if its id and name are known. -/
def Draft.complete? (draft : Draft) : Option Definition := do
  let id ← draft.id
  let name ← draft.name
  pure { draft.others with id := id, name := name }

/-- The definition of a record in which fields have names. -/
def Draft.ofFields (draft : Draft) : Except Mismatch Definition :=
  match draft.complete? with
  | some definition => .ok definition
  | none => .error (.missingField (if draft.id.isNone then "id" else "name"))

/-- The names of the fields, in order. -/
def fieldNames : List String :=
  ["id", "name", "val", "min", "max", "log_scale", "step", "oneof", "params", "hidden"]

/-- The definition of a sequence of `length` items in place of a record. -/
def Draft.ofPositions (draft : Draft) (length : Nat) : Except Mismatch Definition :=
  match draft.complete? with
  | none => .error (.shortRecord length .definition fieldNames.length)
  | some definition =>
    if fieldNames.length < length then .error (.longRecord length) else .ok definition

mutual

/-- Reads a definition: an object, or a sequence of the fields in order of which those after the
name may be absent. Fields are read in the order they come in, and the first mismatch is
reported. -/
def ofJson (v : Json) : Except Mismatch Definition :=
  match v with
  | .object members => do
    let draft ← readFields members .empty
    draft.ofFields
  | .array items => do
    let draft ← readPositions fieldNames items .empty
    draft.ofPositions items.length
  | v => mismatch .definition v

/-- Reads fields by name. -/
def readFields : List (String × Json) → Draft → Except Mismatch Draft
  | [], draft => .ok draft
  | (field, v) :: rest, draft =>
    if field = "params" then do
      let params ← readParams v
      readFields rest (draft.setParams params)
    else do
      let draft ← draft.set field v
      readFields rest draft

/-- Reads fields in order; items past the last field are left to the caller. -/
def readPositions : List String → List Json → Draft → Except Mismatch Draft
  | field :: fields, v :: rest, draft =>
    if field = "params" then do
      let params ← readParams v
      readPositions fields rest (draft.setParams params)
    else do
      let draft ← draft.set field v
      readPositions fields rest draft
  | _, _, draft => .ok draft

/-- Reads the parameters of a group, absent when null. -/
def readParams (v : Json) : Except Mismatch (Option (List (String × Definition))) :=
  match v with
  | .null => .ok none
  | .object members => (readMembers members).map some
  | v => mismatch .map v

/-- Reads definitions under attributes. -/
def readMembers : List (String × Json) → Except Mismatch (List (String × Definition))
  | [] => .ok []
  | (key, v) :: rest => do
    let definition ← ofJson v
    let later ← readMembers rest
    pure ((key, definition) :: later)

end

/-! ### Definitions as data -/

/-- A bound as data. -/
def boundJson : Bound → Json
  | .uniform x => .ofReal x
  | .perIndex xs => .array (xs.map .ofReal)

/-- A field that is left out when absent. -/
def optionalField {α : Type} (name : String) (toJson : α → Json) (field : Option α) :
    List (String × Json) :=
  match field with
  | none => []
  | some v => [(name, toJson v)]

mutual

/-- The definition as data, its fields in order. -/
def toJson (d : Definition) : Json :=
  match d with
  | ⟨id, name, val, min, max, logScale, step, oneof, params, hidden⟩ =>
    .object (
      [("id", .ofInt64 id.number), ("name", .string name), ("val", val)]
      ++ optionalField "min" boundJson min
      ++ optionalField "max" boundJson max
      ++ optionalField "log_scale" .bool logScale
      ++ optionalField "step" .ofReal step
      ++ optionalField "oneof" .array oneof
      ++ (match params with
        | none => []
        | some members => [("params", .object (membersJson members))])
      ++ optionalField "hidden" (fun names => .array (names.map .string)) hidden)

/-- Definitions under attributes as data. -/
def membersJson : List (String × Definition) → List (String × Json)
  | [] => []
  | (key, d) :: rest => (key, toJson d) :: membersJson rest

end

/-- The definition as compact text. -/
def text (d : Definition) : String := d.toJson.compact

end Definition

end LiveTuner
