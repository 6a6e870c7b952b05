import LiveTuner.Json.Basic
import LiveTuner.Param.Definition
import LiveTuner.Param.Value
import LiveTuner.Text.Utf8

/-!
# Writing binary payloads

Each value is written in the shortest form for its size: integers by their magnitude, lengths of
texts, sequences and maps by how many octets they need. Numbers that are not integers always take
eight octets.

## Main definitions

* `MessagePack.writeJson` — a data value
* `MessagePack.writeUpdate` — an id and a parameter value
* `MessagePack.writeDefinitions` — a list of definitions, as a node sends it
-/

namespace LiveTuner.MessagePack

/-- A natural number in `width` octets, the most significant first. -/
def octetsOf : Nat → Nat → List UInt8
  | 0, _ => []
  | width + 1, n => UInt8.ofNat (n >>> (8 * width)) :: octetsOf width n

/-- An integer, in the shortest form. -/
def writeInteger (n : Int) : List UInt8 :=
  if 0 ≤ n then
    let m := n.toNat
    if m < 0x80 then [UInt8.ofNat m]
    else if m < 0x100 then 0xcc :: octetsOf 1 m
    else if m < 0x1_0000 then 0xcd :: octetsOf 2 m
    else if m < 0x1_0000_0000 then 0xce :: octetsOf 4 m
    else 0xcf :: octetsOf 8 m
  else if -0x20 ≤ n then octetsOf 1 (n + 0x100).toNat
  else if -0x80 ≤ n then 0xd0 :: octetsOf 1 (n + 0x100).toNat
  else if -0x8000 ≤ n then 0xd1 :: octetsOf 2 (n + 0x1_0000).toNat
  else if -0x8000_0000 ≤ n then 0xd2 :: octetsOf 4 (n + 0x1_0000_0000).toNat
  else 0xd3 :: octetsOf 8 (n + 0x1_0000_0000_0000_0000).toNat

/-- A number that is not an integer. -/
def writeReal (x : Binary64) : List UInt8 := 0xcb :: octetsOf 8 x.toBits

/-- A truth value. -/
def writeBool (b : Bool) : List UInt8 := [if b then 0xc3 else 0xc2]

/-- A text. Lengths have at most four octets. -/
def writeText (s : String) : List UInt8 :=
  let octets := Utf8.encode s.toList
  let n := octets.length % 0x1_0000_0000
  let head :=
    if n < 0x20 then [UInt8.ofNat (0xa0 + n)]
    else if n < 0x100 then 0xd9 :: octetsOf 1 n
    else if n < 0x1_0000 then 0xda :: octetsOf 2 n
    else 0xdb :: octetsOf 4 n
  head ++ octets

/-- The head of a sequence. -/
def writeArrayHead (length : Nat) : List UInt8 :=
  let n := length % 0x1_0000_0000
  if n < 0x10 then [UInt8.ofNat (0x90 + n)]
  else if n < 0x1_0000 then 0xdc :: octetsOf 2 n
  else 0xdd :: octetsOf 4 n

/-- The head of a map. -/
def writeMapHead (length : Nat) : List UInt8 :=
  let n := length % 0x1_0000_0000
  if n < 0x10 then [UInt8.ofNat (0x80 + n)]
  else if n < 0x1_0000 then 0xde :: octetsOf 2 n
  else 0xdf :: octetsOf 4 n

mutual

/-- A data value. -/
def writeJson : Json → List UInt8
  | .null => [0xc0]
  | .bool b => writeBool b
  | .integer n => writeInteger n.val
  | .real x => writeReal x.val
  | .string s => writeText s
  | .array items => writeArrayHead items.length ++ writeItems items
  | .object members => writeMapHead members.length ++ writeMembers members

/-- Data values one after the other. -/
def writeItems : List Json → List UInt8
  | [] => []
  | v :: rest => writeJson v ++ writeItems rest

/-- Keys with their data values one after the other. -/
def writeMembers : List (String × Json) → List UInt8
  | [] => []
  | (key, v) :: rest => writeText key ++ writeJson v ++ writeMembers rest

end

/-- A parameter value. -/
def writeValue : Value → List UInt8
  | .null => [0xc0]
  | .bool b => writeBool b
  | .int n => writeInteger n.toInt
  | .real x => writeReal x
  | .ints ns => writeArrayHead ns.length ++ ns.flatMap fun n => writeInteger n.toInt
  | .reals xs => writeArrayHead xs.length ++ xs.flatMap writeReal
  | .text s => writeText s

/-- An update: a pair of an id and a parameter value. -/
def writeUpdate (id : ParamId) (value : Value) : List UInt8 :=
  writeArrayHead 2 ++ writeInteger id.number.toInt ++ writeValue value

/-- A list of definitions, as a node sends it. -/
def writeDefinitions (definitions : List Definition) : List UInt8 :=
  writeJson (.array (definitions.map Definition.toJson))

example : writeUpdate ⟨128⟩ (.int (-33)) = [0x92, 0xcc, 0x80, 0xd0, 0xdf] := by decide

end LiveTuner.MessagePack
