import LiveTuner.Json.Reader
import LiveTuner.MessagePack.Reader
import LiveTuner.Param.Definition

/-!
# Messages from the server

One connection carries two kinds of messages with nothing around them to tell them apart: control
records, which are JSON objects, and data, which are MessagePack values. A frame is a control
record exactly when its octets are the text of one JSON object; every other frame is read as data.

What a data value means follows from its shape: a pair of an id and a parameter value is a value
push, every other sequence is a list of definitions, and nothing else is a message of the node.

## Main definitions

* `Inbound` — a message from the server
* `Inbound.ofData` — what a data value means
* `Inbound.classify` — the message in a frame
-/

namespace LiveTuner

/-- A message from the server. -/
inductive Inbound where
  /-- The nodes that can be selected. -/
  | nodes (names : List String)
  /-- A control record of another kind. -/
  | unrecognized (record : Json)
  /-- A new value of one parameter. -/
  | push (id : ParamId) (val : Value)
  /-- Definitions, in order, and the items among them that are none, with what is wrong. -/
  | definitions (definitions : List Definition) (rejected : List (Json × Mismatch))
  /-- A data value that means nothing. -/
  | other (v : Json)

namespace Inbound

/-- The key under which a control record lists the nodes. -/
def nodesKey : String := "availableNodes"

/-- A text, if the value is one. -/
def text? : Json → Option String
  | .string s => some s
  | _ => none

/-- What a JSON object with these members means. -/
def ofRecord (members : List (String × Json)) : Inbound :=
  match Json.member? nodesKey members with
  | some (.array items) =>
    match items.mapM text? with
    | some names => nodes names
    | none => unrecognized (.object members)
  | _ => unrecognized (.object members)

/-- The id and the value of a value push, if the items of a sequence are one. -/
def push? : List Json → Option (ParamId × Value)
  | [id, v] => do
    let number ← id.toInt64?
    let val ← Value.ofJson? v
    pure (⟨number⟩, val)
  | _ => none

/-- The items of a list that are definitions, and those that are none, each in order. -/
def sortDefinitions : List Json → List Definition × List (Json × Mismatch)
  | [] => ([], [])
  | v :: rest =>
    let (accepted, rejected) := sortDefinitions rest
    match Definition.ofJson v with
    | .ok d => (d :: accepted, rejected)
    | .error m => (accepted, (v, m) :: rejected)

/-- What a data value means. -/
def ofData : Json → Inbound
  | .array items =>
    match push? items with
    | some (id, val) => push id val
    | none =>
      let (accepted, rejected) := sortDefinitions items
      definitions accepted rejected
  | v => other v

/-- The members of the JSON object whose text the octets are. -/
def record? (payload : List UInt8) : Option (List (String × Json)) :=
  match Utf8.decode payload with
  | .error _ => none
  | .ok text =>
    match Json.ofText? text with
    | some (.object members) => some members
    | _ => none

/-- The message in a frame with this payload. -/
def classify (payload : List UInt8) : Except MessagePack.Fault Inbound :=
  match record? payload with
  | some members => .ok (ofRecord members)
  | none => (MessagePack.readJson payload).map ofData

end Inbound

end LiveTuner
