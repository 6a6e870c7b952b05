import LiveTuner.EditorTree.Change
import LiveTuner.Message.Inbound
import LiveTuner.Message.Outbound
import LiveTuner.Param.Resolution
import LiveTuner.Registry

/-!
# Sessions

A session is the client's side of one node's parameters: which node is selected, the registry of its
definitions and the editors that show them. Frames from the server, selections and interactions of
the user are handled one after the other; what has to go back to the server is put into the outbox
in order.

The server lists its nodes, and the session picks one: the preferred node if it is listed, else the
first, or none if the session is pinned to a node that is not listed. The first list of definitions
after a selection is loaded; later ones change what is there. Registry and editors are dropped
whenever the selection changes.

Nothing here is fatal. Each handler says what it reports and the session goes on.

## Main definitions

* `Session` — the state of a session
* `Session.onConnected`, `Session.onDisconnected` — a connection opens or closes
* `Session.handleFrame` — a frame from the server, with what is reported
* `Session.selectNode`, `Session.interact` — the user selects a node or edits a parameter
* `Session.missingPinned?` — the complaint that the pinned node is not listed
-/

namespace LiveTuner

/-- The state of a session. -/
structure Session where
  /-- Where the session is in the selection of a node. -/
  state : NodeState
  /-- The nodes the server listed, without the reserved name. -/
  available : List String
  /-- Whether the server has listed its nodes on this connection. -/
  advertised : Bool
  /-- The node to pick when it is listed. -/
  preferred : Option String
  /-- Whether only the preferred node may be picked. -/
  pinned : Bool
  /-- The definitions of the selected node. -/
  registry : Registry
  /-- The editors of the selected node. -/
  editors : EditorTree
  /-- The messages to the server that have not been written, the oldest first. -/
  outbox : List Outbound
  /-- Whether messages are still taken into the outbox. -/
  outboxOpen : Bool

namespace Session

/-- A session without a connection that prefers a node, if one is given. -/
def new (preferred : Option String) : Session :=
  ⟨.disconnected, [], false, preferred, false, .empty, .empty, [], true⟩

/-- A session without a connection that picks no other node than the given one. -/
def pinnedTo (node : String) : Session := { new (some node) with pinned := true }

/-- The selected node. -/
def selected? (s : Session) : Option String := s.state.node?

/-- Whether the definitions of the selected node are loaded. -/
def isReady (s : Session) : Bool :=
  match s.state with
  | .ready _ => true
  | _ => false

/-- Whether a node is selected whose definitions have not come yet. -/
def isAwaiting (s : Session) : Bool :=
  match s.state with
  | .awaiting _ => true
  | _ => false

/-- The session without definitions and editors. -/
def reset (s : Session) : Session := { s with registry := .empty, editors := s.editors.clear }

/-- The session with a message put into the outbox; once that is closed, messages are dropped. -/
def send (s : Session) (message : Outbound) : Session :=
  if s.outboxOpen then { s with outbox := s.outbox ++ [message] } else s

/-- A connection has opened. -/
def onConnected (s : Session) : Session :=
  { s.reset with available := [], advertised := false, state := .noNode }

/-- The connection has closed: the selection and all that came with it are forgotten. -/
def onDisconnected (s : Session) : Session :=
  { s.reset with available := [], advertised := false, state := .disconnected }

/-! ### Selecting -/

/-- The complaint that the server has listed its nodes without the one the session is pinned to. -/
def missingPinned? (s : Session) : Option Problem :=
  match s.preferred with
  | some node =>
    if s.pinned && s.advertised && !s.available.contains node then some (.unknownNode node)
    else none
  | none => none

/-- Selects no node. With the session, whether that changed anything. -/
def deselect (s : Session) : Session × Bool :=
  match s.selected? with
  | none => (s, false)
  | some _ => (({ s.reset with state := .noNode }).send (.choose noNode), true)

/-- Selects a node, or none by the reserved name. With the session, whether that changed anything:
selecting the selected node again does not, and then nothing is sent. -/
def selectNode (s : Session) (node : String) : Except Problem (Session × Bool) :=
  if s.state = .disconnected then .error .notConnected
  else if node = noNode then .ok s.deselect
  else if s.selected? = some node then .ok (s, false)
  else if !s.available.contains node then .error (.unknownNode node)
  else .ok (({ s.reset with state := .awaiting node }).send (.choose node), true)

/-- The node to pick among those listed. -/
def pick? (s : Session) : Option String :=
  let preferred := s.preferred.filter s.available.contains
  if s.pinned then preferred else preferred.or s.available.head?

/-- Picks a node; if there is none to pick, the server is told when one had been selected. -/
def pickNode (s : Session) (hadSelected : Bool) : Session × List Problem :=
  match s.pick? with
  | some node =>
    match s.selectNode node with
    | .ok (s, _) => (s, [])
    | .error problem => (s, [problem])
  | none => (if hadSelected then s.send (.choose noNode) else s, s.missingPinned?.toList)

/-- The server has listed its nodes. A selected node that is still listed stays selected, and all
that came with it stays as it is. -/
def updateNodes (s : Session) (names : List String) : Session × List Problem :=
  let s := { s with available := names.filter (· ≠ noNode), advertised := true }
  match s.selected? with
  | some node =>
    if s.available.contains node then (s, [])
    else pickNode { s.reset with state := .noNode } true
  | none => pickNode s false

/-! ### Data -/

/-- The complaint about a message that does not fit the state. -/
def unfit (s : Session) (what : Unexpected) : Problem := .unexpected what (.session s.state)

/-- What is reported about definitions that describe no parameter. -/
def unresolvables (definitions : List Definition) : List Problem :=
  definitions.filterMap fun d =>
    match d.resolve with
    | .ok _ => none
    | .error cause => some (.unresolvable cause d)

/-- What is reported about a list of definitions: first the items that are none, then those that
describe no parameter. -/
def definitionReports (s : Session) (definitions : List Definition)
    (rejected : List (Json × Mismatch)) : List Problem :=
  rejected.map (fun (item, mismatch) => s.unfit (.rejected item mismatch))
    ++ unresolvables definitions

/-- Loads the first definitions of the selected node. -/
def load (s : Session) (params : List Param) : Session :=
  let state := match s.state with
    | .awaiting node => .ready node
    | state => state
  { s with state, registry := s.registry.flatten params, editors := s.editors.load params }

/-- Exchanges definitions one after the other; what the editors know nothing of is reported. -/
def reconcileAll (editors : EditorTree) : List Param → Walk (EditorTree × List Problem)
  | [] => some (editors, [])
  | p :: rest => do
    match ← editors.reconcile p with
    | .ok editors => reconcileAll editors rest
    | .error problem =>
      let (editors, problems) ← reconcileAll editors rest
      pure (editors, problem :: problems)

/-- Takes in definitions that change what is there. -/
def redefine (s : Session) (params : List Param) : Walk (Session × List Problem) := do
  let (editors, problems) ← reconcileAll s.editors params
  pure ({ s with registry := s.registry.flatten params, editors }, problems)

/-- Takes in a value pushed by the node. An editor judges the value first; without one, the registry
does. -/
def pushValue (s : Session) (id : ParamId) (val : Value) : Walk (Session × List Problem) :=
  if s.editors.contains id then do
    match ← s.editors.bindValue id val with
    | .ok editors =>
      pure ({ s with editors, registry := (s.registry.setValue? id val).getD s.registry }, [])
    | .error problem => pure (s, [problem])
  else
    match s.registry.get? id with
    | none => pure (s, [.unknownParameter id])
    | some _ =>
      match s.registry.setValue? id val with
      | some registry => pure ({ s with registry }, [])
      | none => pure (s, [s.unfit (.push id val)])

/-- Handles a message from the server. -/
def handleMessage (s : Session) (message : Inbound) : Walk (Session × List Problem) :=
  match message with
  | .nodes names => pure (s.updateNodes names)
  | .unrecognized _ => pure (s, [])
  | .definitions definitions rejected =>
    let reports := s.definitionReports definitions rejected
    let params := definitions.map Definition.resolveLeniently
    if s.isAwaiting && s.registry.isEmpty then pure (s.load params, reports)
    else if s.isReady then do
      let (s, problems) ← s.redefine params
      pure (s, reports ++ problems)
    else pure (s, [s.unfit (.definitions definitions)])
  | .push id val =>
    if s.isReady then s.pushValue id val else pure (s, [s.unfit (.push id val)])
  | .other v => pure (s, [s.unfit (.other v)])

/-- Handles a frame from the server. -/
def handleFrame (s : Session) (payload : List UInt8) : Walk (Session × List Problem) :=
  if s.state = .disconnected then pure (s, [.notConnected])
  else
    match Inbound.classify payload with
    | .ok message => s.handleMessage message
    | .error fault => pure (s, [.undecodable payload fault])

/-! ### Editing -/

/-- Applies an interaction of the user. A value that comes of it shows at once and is sent to the
node, which is not asked to confirm it. -/
def interact (s : Session) (id : ParamId) (interaction : Interaction) :
    Walk (Except Problem (Session × Option Value)) :=
  if s.state = .disconnected then pure (.error .notConnected)
  else do
    match ← s.editors.interact id interaction with
    | .error problem => pure (.error problem)
    | .ok (editors, none) => pure (.ok ({ s with editors }, none))
    | .ok (editors, some val) =>
      let registry := (s.registry.setValue? id val).getD s.registry
      pure (.ok (({ s with editors, registry }).send (.update id val), some val))

end Session

end LiveTuner
