import LiveTuner.Json.Basic
import LiveTuner.MessagePack.Fault

/-!
# The parts of a binary payload

A payload is a sequence of tokens: scalars, texts and octets with all that belongs to them, and the
heads of sequences, maps and extensions, whose parts follow as tokens of their own.

## Main definitions

* `MessagePack.Token` — a part of a payload
* `MessagePack.readToken` — the token at the start of a payload
-/

namespace LiveTuner.MessagePack

/-- A part of a payload. -/
inductive Token where
  /-- No value. -/
  | nil
  /-- A truth value. -/
  | bool (b : Bool)
  /-- An integer. -/
  | integer (n : WireInteger)
  /-- A number of single or double precision. -/
  | real (x : Binary64)
  /-- The octets of a text, which may be none. -/
  | text (bytes : List UInt8)
  /-- Octets. -/
  | octets (bytes : List UInt8)
  /-- The head of a sequence of that many items. -/
  | array (length : Nat)
  /-- The head of a map of that many keys and values. -/
  | map (length : Nat)
  /-- The head of an extension of that many octets after its type. -/
  | extension (length : Nat)

/-- What reading a payload as a value gives: the value with the octets after it, or a fault. -/
abbrev Reading (α : Type) := Except Fault (α × List UInt8)

/-- The first `count` octets and those after them, if there are that many. -/
def splitOctets : Nat → List UInt8 → Option (List UInt8 × List UInt8)
  | 0, rest => some ([], rest)
  | _ + 1, [] => none
  | count + 1, b :: rest =>
    (splitOctets count rest).map fun (front, after) => (b :: front, after)

/-- The natural number that octets spell, the most significant first. -/
def bigEndian (octets : List UInt8) : Nat := octets.foldl (fun n b => n * 256 + b.toNat) 0

/-- Reads a natural number of `width` octets. -/
def readNat (width : Nat) (payload : List UInt8) : Reading Nat :=
  match splitOctets width payload with
  | some (octets, rest) => .ok (bigEndian octets, rest)
  | none => .error .endInNumber

/-- The integer with a sign that a natural number of `width` octets stands for. -/
def withSign (width n : Nat) : WireInteger :=
  .ofInt64 (Int64.ofInt (if n < 1 <<< (8 * width - 1) then n else n - (1 <<< (8 * width) : Nat)))

/-- Reads `length` octets. -/
def readBody (length : Nat) (payload : List UInt8) : Reading (List UInt8) :=
  match splitOctets length payload with
  | some (octets, rest) => .ok (octets, rest)
  | none => .error .endInBody

/-- Reads a length of `width` octets. -/
def readHead (head : Nat → Token) (width : Nat) (payload : List UInt8) : Reading Token :=
  (readNat width payload).map fun (n, rest) => (head n, rest)

/-- Reads a length of `width` octets and that many octets. -/
def readSized (make : List UInt8 → Token) (width : Nat) (payload : List UInt8) : Reading Token :=
  match readNat width payload with
  | .ok (length, rest) => (readBody length rest).map fun (octets, rest) => (make octets, rest)
  | .error fault => .error fault

/-- Reads an integer without a sign of `width` octets. -/
def readUnsigned (width : Nat) (payload : List UInt8) : Reading Token :=
  (readNat width payload).map fun (n, rest) => (.integer (.ofUInt64 (UInt64.ofNat n)), rest)

/-- Reads an integer with a sign of `width` octets. -/
def readSigned (width : Nat) (payload : List UInt8) : Reading Token :=
  (readNat width payload).map fun (n, rest) => (.integer (withSign width n), rest)

/-- Reads what belongs to a token after its marker. -/
def readAfterMarker (marker : UInt8) (payload : List UInt8) : Reading Token :=
  let n := marker.toNat
  if n < 0x80 then .ok (.integer (.ofUInt64 (UInt64.ofNat n)), payload)
  else if n < 0x90 then .ok (.map (n - 0x80), payload)
  else if n < 0xa0 then .ok (.array (n - 0x90), payload)
  else if n < 0xc0 then
    (readBody (n - 0xa0) payload).map fun (octets, rest) => (.text octets, rest)
  else if 0xe0 ≤ n then .ok (.integer (withSign 1 n), payload)
  else match n with
    | 0xc0 => .ok (.nil, payload)
    | 0xc2 => .ok (.bool false, payload)
    | 0xc3 => .ok (.bool true, payload)
    | 0xc4 => readSized .octets 1 payload
    | 0xc5 => readSized .octets 2 payload
    | 0xc6 => readSized .octets 4 payload
    | 0xc7 => readHead .extension 1 payload
    | 0xc8 => readHead .extension 2 payload
    | 0xc9 => readHead .extension 4 payload
    | 0xca => (readNat 4 payload).map fun (n, rest) => (.real (.ofSingleBits n), rest)
    | 0xcb => (readNat 8 payload).map fun (n, rest) => (.real (.ofBits n), rest)
    | 0xcc => readUnsigned 1 payload
    | 0xcd => readUnsigned 2 payload
    | 0xce => readUnsigned 4 payload
    | 0xcf => readUnsigned 8 payload
    | 0xd0 => readSigned 1 payload
    | 0xd1 => readSigned 2 payload
    | 0xd2 => readSigned 4 payload
    | 0xd3 => readSigned 8 payload
    | 0xd4 => .ok (.extension 1, payload)
    | 0xd5 => .ok (.extension 2, payload)
    | 0xd6 => .ok (.extension 4, payload)
    | 0xd7 => .ok (.extension 8, payload)
    | 0xd8 => .ok (.extension 16, payload)
    | 0xd9 => readSized .text 1 payload
    | 0xda => readSized .text 2 payload
    | 0xdb => readSized .text 4 payload
    | 0xdc => readHead .array 2 payload
    | 0xdd => readHead .array 4 payload
    | 0xde => readHead .map 2 payload
    | 0xdf => readHead .map 4 payload
    | _ => .error (.wrongMarker marker)

/-- Reads the token at the start of a payload. -/
def readToken (payload : List UInt8) : Reading Token :=
  match payload with
  | [] => .error .endAtMarker
  | marker :: rest => readAfterMarker marker rest

end LiveTuner.MessagePack
