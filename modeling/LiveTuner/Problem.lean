import LiveTuner.Editor.Interaction
import LiveTuner.MessagePack.Fault
import LiveTuner.NodeState

/-!
# Problems

A frame that cannot be used and an interaction that is refused are reported and otherwise have no
effect: the session goes on with the next one. A `Problem` records the cause; its wording is given
here once.

## Main definitions

* `Unexpected` — a message that does not fit the situation
* `Situation` — where it does not fit
* `Problem` — what is reported
* `Problem.message` — its wording
-/

namespace LiveTuner

/-- A message that does not fit. -/
inductive Unexpected where
  /-- A new value of a parameter. -/
  | push (id : ParamId) (val : Value)
  /-- Definitions. -/
  | definitions (definitions : List Definition)
  /-- A data value that means nothing. -/
  | other (v : Json)
  /-- An item of a list of definitions that is none. -/
  | rejected (item : Json) (mismatch : Mismatch)

/-- The wording of a message that does not fit. -/
def Unexpected.message : Unexpected → String
  | .push id val => s!"[{id.number.toInt}, {val.message}]"
  | .definitions ds =>
    s!"{ds.length} definition(s) {(Json.array (ds.map Definition.toJson)).compact}"
  | .other v => v.compact
  | .rejected item mismatch => s!"{item.compact} ({mismatch.message .json})"

/-- Where a message does not fit. -/
inductive Situation where
  /-- In this state of the session. -/
  | session (state : NodeState)
  /-- At the editor of a parameter of this kind and name. -/
  | editor (kind : Kind) (name : String)
deriving DecidableEq, Repr

/-- The wording of a situation. -/
def Situation.message : Situation → String
  | .session state => state.inspected
  | .editor kind name => s!"{kind.label} editor for '{name}'"

/-- What is reported. -/
inductive Problem where
  /-- A frame is neither a control record nor data. -/
  | undecodable (payload : List UInt8) (fault : MessagePack.Fault)
  /-- A definition describes no parameter. -/
  | unresolvable (cause : Unresolvable) (definition : Definition)
  /-- No parameter has the id. -/
  | unknownParameter (id : ParamId)
  /-- A message does not fit. -/
  | unexpected (what : Unexpected) (situation : Situation)
  /-- The server knows no such node. -/
  | unknownNode (node : String)
  /-- An interaction is refused. -/
  | refused (id : ParamId) (refusal : Refusal)
  /-- There is no connection. -/
  | notConnected

/-- The number of octets of a frame that a report shows. -/
def shownOctets : Nat := 32

/-- An octet in two hexadecimal digits. -/
def hexOctet (b : UInt8) : String :=
  String.ofList [Nat.digitChar (b.toNat / 16), Nat.digitChar (b.toNat % 16)]

/-- The wording of a problem. -/
def Problem.message : Problem → String
  | .undecodable payload fault =>
    let shown := ", ".intercalate ((payload.take shownOctets).map hexOctet)
    s!"Frame classification failed ({fault.message}): {payload.length} bytes [{shown}]"
  | .unresolvable cause definition => unresolvableMessage cause definition
  | .unknownParameter id => s!"Unknown parameter id {id.text}"
  | .unexpected what situation =>
    s!"Unexpected message {what.message} while in state {situation.message}"
  | .unknownNode node => s!"Unknown node: {node}"
  | .refused id refusal => s!"Invalid interaction with {id.text}: {refusal.message}"
  | .notConnected => "Not connected"

end LiveTuner
