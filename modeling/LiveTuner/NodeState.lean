import LiveTuner.Text.Quoted

/-!
# The selection of a node

At any time a session is not connected, has no node selected, waits for the definitions of the node
it selected, or has them.

## Main definitions

* `NodeState` — where a session is in the selection of a node
* `NodeState.node?` — the selected node
-/

namespace LiveTuner

/-- Where a session is in the selection of a node. -/
inductive NodeState where
  /-- There is no connection. -/
  | disconnected
  /-- No node is selected. -/
  | noNode
  /-- A node was selected; its definitions have not come yet. -/
  | awaiting (node : String)
  /-- The definitions of the selected node are loaded. -/
  | ready (node : String)
deriving DecidableEq, Repr

namespace NodeState

/-- The selected node. -/
def node? : NodeState → Option String
  | disconnected | noNode => none
  | awaiting node | ready node => some node

/-- The name of the state. -/
def name : NodeState → String
  | disconnected => "Disconnected"
  | noNode => "NoNodeSelected"
  | awaiting _ => "AwaitingDefinitions"
  | ready _ => "Ready"

/-- The state in messages. -/
def inspected (state : NodeState) : String :=
  match state.node? with
  | none => state.name
  | some node => s!"{state.name} \x7b node: {quoted node} \x7d"

end NodeState

end LiveTuner
