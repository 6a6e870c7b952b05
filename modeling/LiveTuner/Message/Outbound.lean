import LiveTuner.Json.Record
import LiveTuner.MessagePack.Writer

/-!
# Messages to the server

The program tells the server which node it has chosen, and what values its user gave to the
parameters of that node. A choice is a control record, an update is a MessagePack pair.

## Main definitions

* `noNode` — the reserved name that stands for no node
* `Outbound` — a message to the server
* `Frame` — a message as it is written
* `Outbound.encode` — the frame of a message
* `readChoice?` — the choice that a control record states
-/

namespace LiveTuner

/-- The name that stands for no node. No node may have it. -/
def noNode : String := "None"

/-- A message to the server. -/
inductive Outbound where
  /-- The node that is now chosen, or `noNode`. -/
  | choose (node : String)
  /-- A new value of one parameter. -/
  | update (id : ParamId) (val : Value)
deriving DecidableEq, Repr

/-- A message as it is written. -/
inductive Frame where
  /-- A text frame. -/
  | text (s : String)
  /-- A binary frame. -/
  | binary (octets : List UInt8)
deriving DecidableEq, Repr

/-- The octets that a frame carries. -/
def Frame.payload : Frame → List UInt8
  | text s => Utf8.encode s.toList
  | binary octets => octets

/-- The key under which a control record names the chosen node. -/
def choiceKey : String := "chosenNode"

/-- The frame of a message. -/
def Outbound.encode : Outbound → Frame
  | choose node => .text (Json.object [(choiceKey, .string node)]).compact
  | update id val => .binary (MessagePack.writeUpdate id val)

/-- The record that states a choice. -/
def choiceShape : Json.RecordShape (Option String) String where
  expected := .choice
  fields := [⟨choiceKey, Option.isSome, fun _ text =>
    (Json.readStringField text).map fun (node, rest) => (some node, rest)⟩]
  start := none
  complete known :=
    match known with
    | some node => .ok node
    | none => .error (.missingField choiceKey)

/-- The node that a control record names as chosen. -/
def readChoice? (text : String) : Option String :=
  (Json.readWholeRecord choiceShape text.toList).toOption

end LiveTuner
