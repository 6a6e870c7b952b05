import LiveTuner.Mismatch
import LiveTuner.Text.Utf8

/-!
# Faults of binary payloads

Binary payloads are MessagePack. Each value begins with a marker octet; reading stops at the first
octet that does not fit, with a `Fault`.

## Main definitions

* `MessagePack.markerName` — the name of a marker in messages
* `MessagePack.Fault` — what is wrong with a payload
* `Fault.message`, `Fault.cause?` — its wording, and the deeper cause it has
-/

namespace LiveTuner.MessagePack

/-- The name of a marker in messages. -/
def markerName (marker : UInt8) : String :=
  let n := marker.toNat
  if n < 0x80 then s!"FixPos({n})"
  else if n < 0x90 then s!"FixMap({n - 0x80})"
  else if n < 0xa0 then s!"FixArray({n - 0x90})"
  else if n < 0xc0 then s!"FixStr({n - 0xa0})"
  else if 0xe0 ≤ n then s!"FixNeg({(n : Int) - 0x100})"
  else match n with
    | 0xc0 => "Null"
    | 0xc1 => "Reserved"
    | 0xc2 => "False"
    | 0xc3 => "True"
    | 0xc4 => "Bin8"
    | 0xc5 => "Bin16"
    | 0xc6 => "Bin32"
    | 0xc7 => "Ext8"
    | 0xc8 => "Ext16"
    | 0xc9 => "Ext32"
    | 0xca => "F32"
    | 0xcb => "F64"
    | 0xcc => "U8"
    | 0xcd => "U16"
    | 0xce => "U32"
    | 0xcf => "U64"
    | 0xd0 => "I8"
    | 0xd1 => "I16"
    | 0xd2 => "I32"
    | 0xd3 => "I64"
    | 0xd4 => "FixExt1"
    | 0xd5 => "FixExt2"
    | 0xd6 => "FixExt4"
    | 0xd7 => "FixExt8"
    | 0xd8 => "FixExt16"
    | 0xd9 => "Str8"
    | 0xda => "Str16"
    | 0xdb => "Str32"
    | 0xdc => "Array16"
    | 0xdd => "Array32"
    | 0xde => "Map16"
    | _ => "Map32"

/-- What is wrong with a payload. -/
inductive Fault where
  /-- The payload ends where a marker should be. -/
  | endAtMarker
  /-- The payload ends within a number or a length. -/
  | endInNumber
  /-- The payload ends within a text or within octets. -/
  | endInBody
  /-- A marker begins no value, or not one that may stand here. -/
  | wrongMarker (marker : UInt8)
  /-- The octets of a text are no text. -/
  | notText (fault : Utf8.Fault)
  /-- Sequences and maps are nested too deeply. -/
  | tooDeep
  /-- A sequence has more items than the `expected` ones. -/
  | longSequence (expected : Nat)
  /-- A value has not the shape that is asked for. -/
  | mismatch (m : Mismatch)
deriving DecidableEq, Repr

/-- The deeper cause of a fault, where it has one. -/
def Fault.cause? : Fault → Option String
  | .endAtMarker | .endInNumber => some "failed to fill whole buffer"
  | .endInBody => some "unexpected end of file"
  | .notText fault => some fault.message
  | _ => none

/-- The wording of a fault. -/
def Fault.message (fault : Fault) : String :=
  match fault with
  | .endAtMarker => "IO error while reading marker: " ++ fault.cause?.getD ""
  | .endInNumber | .endInBody => "IO error while reading data: " ++ fault.cause?.getD ""
  | .wrongMarker marker => s!"wrong msgpack marker {markerName marker}"
  | .notText cause => s!"string found to be invalid utf8: {cause.message}"
  | .tooDeep => "depth limit exceeded"
  | .longSequence expected => s!"array had incorrect length, expected {expected}"
  | .mismatch m => m.message .messagePack

end LiveTuner.MessagePack
