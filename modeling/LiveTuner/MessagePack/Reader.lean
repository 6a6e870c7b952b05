import LiveTuner.MessagePack.Token
import LiveTuner.Param.Id
import LiveTuner.Param.Value

/-!
# Reading binary payloads

A payload is read either as a data value or as an update, which is a pair of an id and a parameter
value. Both readers stop at the first fault and pay no heed to octets after the value.

Data values have texts for keys and know neither octets nor extensions. A parameter value may
contain anything as long as the payload is sound; only then is its shape looked at. Where a whole
update is asked for, octets are taken for a sequence of integers.

## Main definitions

* `MessagePack.readJson` — a payload as a data value
* `MessagePack.Packed`, `MessagePack.readPacked` — any sound value
* `MessagePack.readUpdate` — a payload as an id and a parameter value
-/

namespace LiveTuner.MessagePack

/-- The greatest number of sequences, maps and extensions around a value. -/
def maxNesting : Nat := 1023

/-- The complaint that a value was found where another is expected. -/
def stopAt {α : Type} (found : Found) (expected : Expected) : Except Fault α :=
  .error (.mismatch (.wrongType found expected))

/-- The text that octets spell. -/
def textOf (octets : List UInt8) : Except Fault String :=
  match Utf8.decode octets with
  | .ok text => .ok (String.ofList text)
  | .error fault => .error (.notText fault)

/-- The complaint about a token that is not what is expected, met within `nesting` further levels.
A text must be one before it can be the wrong value. -/
def stopAtToken {α : Type} (nesting : Nat) (token : Token) (expected : Expected) : Except Fault α :=
  let within (found : Found) : Except Fault α :=
    if nesting = 0 then .error .tooDeep else stopAt found expected
  match token with
  | .nil => stopAt .null expected
  | .bool b => stopAt (.bool b) expected
  | .integer n => stopAt (.integer n.val) expected
  | .real x => stopAt (.real x) expected
  | .text octets => do stopAt (.text (← textOf octets)) expected
  | .octets _ => stopAt .octets expected
  | .array _ => within .sequence
  | .map _ => within .map
  | .extension _ => within .extension

/-- Reads `count` items by `readItem`. -/
def readItems {α : Type} (readItem : List UInt8 → Reading α) :
    Nat → List UInt8 → Except Fault (List α × List UInt8)
  | 0, payload => pure ([], payload)
  | count + 1, payload => do
    let (v, rest) ← readItem payload
    let (vs, rest) ← readItems readItem count rest
    pure (v :: vs, rest)

/-! ### Data values -/

/-- Reads the first key of a map, which is a text. -/
def readFirstKey (nesting : Nat) (payload : List UInt8) : Except Fault (String × List UInt8) := do
  match ← readToken payload with
  | (.text octets, rest) => pure (← textOf octets, rest)
  | (token, _) => stopAtToken nesting token .key

/-- Reads a later key of a map, which is a text or octets that spell one. -/
def readLaterKey (nesting : Nat) (payload : List UInt8) : Except Fault (String × List UInt8) := do
  match ← readToken payload with
  | (.text octets, rest) => pure (← textOf octets, rest)
  | (.octets octets, rest) =>
    match Utf8.decode octets with
    | .ok text => pure (String.ofList text, rest)
    | .error _ => .error (.mismatch (.wrongValue .octets .text))
  | (token, _) => stopAtToken nesting token .text

/-- Reads `count` further keys with their values. -/
def readMembers (nesting : Nat) (readItem : List UInt8 → Reading Json) :
    Nat → List UInt8 → Except Fault (List (String × Json) × List UInt8)
  | 0, payload => pure ([], payload)
  | count + 1, payload => do
    let (key, rest) ← readLaterKey nesting payload
    let (v, rest) ← readItem rest
    let (members, rest) ← readMembers nesting readItem count rest
    pure ((key, v) :: members, rest)

/-- Reads the keys and values of a map with `count` of them, set in order. -/
def readObject (nesting : Nat) (readItem : List UInt8 → Reading Json) (count : Nat)
    (payload : List UInt8) : Except Fault (List (String × Json) × List UInt8) :=
  match count with
  | 0 => pure ([], payload)
  | count + 1 => do
    let (key, rest) ← readFirstKey nesting payload
    let (v, rest) ← readItem rest
    let (members, rest) ← readMembers nesting readItem count rest
    pure (members.foldl (fun object (key, value) => Json.put key value object) [(key, v)], rest)

/-- Reads a data value, with at most `nesting` sequences and maps around any part of it. -/
def readJsonWithin (nesting : Nat) (payload : List UInt8) : Except Fault (Json × List UInt8) := do
  match ← readToken payload with
  | (.nil, rest) => pure (.null, rest)
  | (.bool b, rest) => pure (.bool b, rest)
  | (.integer n, rest) => pure (.integer n, rest)
  | (.real x, rest) => pure (.ofReal x, rest)
  | (.text octets, rest) => pure (.string (← textOf octets), rest)
  | (.array length, rest) =>
    match nesting with
    | 0 => .error .tooDeep
    | nesting + 1 =>
      let (items, rest) ← readItems (fun payload => readJsonWithin nesting payload) length rest
      pure (.array items, rest)
  | (.map length, rest) =>
    match nesting with
    | 0 => .error .tooDeep
    | nesting + 1 =>
      let (members, rest) ←
        readObject nesting (fun payload => readJsonWithin nesting payload) length rest
      pure (.object members, rest)
  | (token, _) => stopAtToken nesting token .value
termination_by structural nesting

/-- The data value at the start of a payload. -/
def readJson (payload : List UInt8) : Except Fault Json :=
  (readJsonWithin maxNesting payload).map Prod.fst

/-! ### Any sound value -/

/-- A sound value, of which only what a parameter value can be is kept. -/
inductive Packed where
  /-- No value. -/
  | nil
  /-- A truth value. -/
  | bool (b : Bool)
  /-- An integer. -/
  | integer (n : WireInteger)
  /-- A number. -/
  | real (x : Binary64)
  /-- A text, or octets that may spell one. -/
  | octets (bytes : List UInt8)
  /-- A sequence. -/
  | array (items : List Packed)
  /-- A map or an extension. -/
  | other

/-- Reads any sound value, with at most `nesting` levels around any part of it. -/
def readPacked (nesting : Nat) (payload : List UInt8) : Except Fault (Packed × List UInt8) := do
  match ← readToken payload with
  | (.nil, rest) => pure (.nil, rest)
  | (.bool b, rest) => pure (.bool b, rest)
  | (.integer n, rest) => pure (.integer n, rest)
  | (.real x, rest) => pure (.real x, rest)
  | (.text octets, rest) => pure (.octets octets, rest)
  | (.octets octets, rest) => pure (.octets octets, rest)
  | (.array length, rest) =>
    match nesting with
    | 0 => .error .tooDeep
    | nesting + 1 =>
      let (items, rest) ← readItems (fun payload => readPacked nesting payload) length rest
      pure (.array items, rest)
  | (.map length, rest) =>
    match nesting with
    | 0 => .error .tooDeep
    | nesting + 1 =>
      let (_, rest) ← readItems (fun payload => readPacked nesting payload) (2 * length) rest
      pure (.other, rest)
  | (.extension length, rest) =>
    match nesting with
    | 0 => .error .tooDeep
    | _ + 1 =>
      let (_, rest) ← readNat 1 rest
      let (_, rest) ← readBody length rest
      pure (.other, rest)
termination_by structural nesting

/-- An integer with a sign. -/
def Packed.toInt64? : Packed → Option Int64
  | integer n => n.toInt64?
  | _ => none

/-- A number. -/
def Packed.toReal? : Packed → Option Binary64
  | integer n => some (.ofInt n.val)
  | real x => some x
  | _ => none

/-- The parameter value that a sound value stands for. -/
def Packed.toValue? : Packed → Option Value
  | nil => some .null
  | bool b => some (.bool b)
  | integer n =>
    match n.toInt64? with
    | some i => some (.int i)
    | none => some (.real (.ofInt n.val))
  | real x => some (.real x)
  | octets bytes =>
    match Utf8.decode bytes with
    | .ok text => some (.text (String.ofList text))
    | .error _ => none
  | array items =>
    match items.mapM Packed.toInt64? with
    | some ns => some (.ints ns)
    | none => (items.mapM Packed.toReal?).map .reals
  | other => none

/-! ### Updates -/

/-- Whether a marker begins a scalar that is neither a text nor octets. -/
def isScalarMarker (marker : UInt8) : Bool :=
  let n := marker.toNat
  n < 0x80 || 0xe0 ≤ n || n == 0xc0 || n == 0xc2 || n == 0xc3 || (0xca ≤ n && n ≤ 0xd3)

/-- Reads the id of an update. -/
def readId (payload : List UInt8) : Except Fault (ParamId × List UInt8) :=
  match payload with
  | [] => .error .endAtMarker
  | marker :: rest =>
    if !isScalarMarker marker then .error (.wrongMarker marker)
    else do
      match ← readAfterMarker marker rest with
      | (.integer n, rest) =>
        match n.toInt64? with
        | some i => pure (⟨i⟩, rest)
        | none => .error (.mismatch (.wrongValue (.integer n.val) .integer))
      | (token, _) => stopAtToken maxNesting token .integer

/-- The update that octets stand for: each is an integer, and those after the second count for
nothing. -/
def updateOfOctets : List UInt8 → Except Fault (ParamId × Value)
  | [] => .error (.mismatch (.shortPair 0))
  | [_] => .error (.mismatch (.shortPair 1))
  | id :: val :: _ => .ok (⟨Int64.ofNat id.toNat⟩, .int (Int64.ofNat val.toNat))

/-- Reads an update: a pair of an id and a parameter value, as a sequence or as octets. -/
def readUpdate (payload : List UInt8) : Except Fault (ParamId × Value) := do
  match ← readToken payload with
  | (.array length, rest) =>
    if length = 0 then .error (.mismatch (.shortPair 0))
    else
      let (id, rest) ← readId rest
      if length = 1 then .error (.mismatch (.shortPair 1))
      else
        let (packed, _) ← readPacked (maxNesting - 1) rest
        match packed.toValue? with
        | none => .error (.mismatch (.noAlternative .value))
        | some value => if 2 < length then .error (.longSequence 2) else pure (id, value)
  | (.octets bytes, _) => updateOfOctets bytes
  | (token, _) => stopAtToken maxNesting token .pair

end LiveTuner.MessagePack
