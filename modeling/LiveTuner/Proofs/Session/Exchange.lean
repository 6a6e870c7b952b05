import LiveTuner.Proofs.Session.Selection

/-!
# A session and a server

A session and a server are joined by a queue in each direction. The server handles the records of
the session in order, answers each one that names a node with the definitions of that node, and
tells of its chosen node whatever it likes while it has one. Records and frames may be under way for
any time, and what is under way is not called back.

No frame says of which node it tells, and the first list of definitions that comes after a selection
is loaded. What the session knows is therefore not that the list is of the selected node. The list
was sent after the server had handled some of the records, and is of the node that the last of these
named. It is of the selected node as soon as those were all the records there are.

## Main definitions

* `Parcel` — a frame under way to the session, with the records that the server had handled
* `Exchange`, `Exchange.move` — a session, a server and what is under way; one move of theirs
* `Exchange.named` — the nodes that the session has named as chosen

## Main results

* `Exchange.IsRegular.move` — what every move preserves
* `Exchange.sender_of_isReady` — of which node the loaded definitions are
* `Exchange.exists_foreign` — they need not be of the selected node
-/

namespace LiveTuner

open Session

/-- Whether a frame is a list of definitions. -/
def listsDefinitions (payload : List UInt8) : Bool :=
  match Inbound.classify payload with
  | .ok (.definitions ..) => true
  | _ => false

/-- A frame under way to the session. -/
structure Parcel where
  /-- The octets of the frame. -/
  payload : List UInt8
  /-- The nodes named in the records that the server had handled when it sent the frame. -/
  known : List String

/-- The node that was chosen at the server when it sent the frame. -/
def Parcel.sender (p : Parcel) : String := p.known.getLastD noNode

/-- A session and a server on one connection. -/
structure Exchange where
  /-- The session, whose outbox holds the messages that have not been written. -/
  session : Session
  /-- The messages under way to the server, the oldest first. -/
  toServer : List Outbound
  /-- The nodes named in the records that the server has handled, in order. -/
  known : List String
  /-- The frames under way to the session, the oldest first. -/
  toClient : List Parcel
  /-- The frame with which the session became ready the last time. -/
  loaded? : Option Parcel

namespace Exchange

/-- A move of the session or of the server. -/
inductive Move where
  /-- The user selects a node, or none by the reserved name. -/
  | select (node : String)
  /-- The user edits a parameter. -/
  | interact (id : ParamId) (interaction : Interaction)
  /-- The oldest message in the outbox is written. -/
  | write
  /-- The server handles the oldest message under way to it. If this names a node, the server
  answers. -/
  | serve (answer : List UInt8)
  /-- The server sends a frame of its own accord. -/
  | tell (payload : List UInt8)
  /-- The session handles the oldest frame under way to it. -/
  | deliver

/-- The exchange on a connection that has just opened. -/
def start (s : Session) : Exchange := ⟨s.onConnected, [], [], [], none⟩

/-- The exchange with a frame of the server under way. -/
def send (x : Exchange) (payload : List UInt8) : Exchange :=
  { x with toClient := x.toClient ++ [⟨payload, x.known⟩] }

/-- Whether the server may send a frame of its own accord: the nodes there are at any time, and
definitions and values of the chosen node. -/
def mayTell (x : Exchange) (payload : List UInt8) : Bool :=
  match Inbound.classify payload with
  | .ok (.nodes _) => true
  | .ok (.definitions ..) | .ok (.push ..) => x.known.getLastD noNode ≠ noNode
  | _ => false

/-- The exchange after a move, if the move can be made. -/
def move (x : Exchange) : Move → Option Exchange
  | .select node => (x.session.handle (.select node)).map fun session => { x with session }
  | .interact id interaction =>
    (x.session.handle (.interact id interaction)).map fun session => { x with session }
  | .write =>
    match x.session.outbox with
    | [] => none
    | m :: rest =>
      some { x with session := { x.session with outbox := rest }, toServer := x.toServer ++ [m] }
  | .serve answer =>
    match x.toServer with
    | [] => none
    | .update .. :: rest => some { x with toServer := rest }
    | .choose node :: rest =>
      let served := { x with toServer := rest, known := x.known ++ [node] }
      if node = noNode then some served
      else if listsDefinitions answer then some (served.send answer)
      else none
  | .tell payload => if x.mayTell payload then some (x.send payload) else none
  | .deliver =>
    match x.toClient with
    | [] => none
    | p :: rest =>
      (x.session.handle (.frame p.payload)).map fun session =>
        { x with
          session
          toClient := rest
          loaded? := if !x.session.isReady && session.isReady then some p else x.loaded? }

/-- The exchange after moves, one after the other. -/
def moves (x : Exchange) (moves : List Move) : Option Exchange := moves.foldlM move x

/-- The nodes that the session has named as chosen, in order: in records that the server has
handled, in those under way to it, and in those that have not been written. -/
def named (x : Exchange) : List String :=
  x.known ++ choices x.toServer ++ choices x.session.outbox

end Exchange

/-! ### Becoming ready -/

namespace Session

variable {s s' t : Session} {node : String} {id : ParamId} {interaction : Interaction}
  {payload : List UInt8} {sent : List Outbound}

/-- A selection makes no session ready. -/
theorem Reselects.isReady (h : s.Reselects t sent) (hready : (t.sendAll sent).isReady = true) :
    s.isReady = true := by
  rw [sendAll_eq] at hready
  cases h with
  | keeps available advertised => exact hready
  | selects | deselects => simp [isReady] at hready

theorem isReady_of_select (h : s.handle (.select node) = some s') (hready : s'.isReady = true) :
    s.isReady = true := by
  rw [handle] at h
  split at h
  · next u b hu =>
    obtain ⟨t, sent, hreselects, rfl⟩ := reselects_selectNode hu
    obtain rfl := Option.some.inj h
    exact hreselects.isReady hready
  · exact Option.some.inj h ▸ hready

/-- An edit changes nothing about the state. -/
theorem state_of_interact (h : s.handle (.interact id interaction) = some s') :
    s'.state = s.state := by
  obtain ⟨result, hresult, rfl⟩ := Option.map_eq_some_iff.mp h
  rcases result with problem | ⟨u, val?⟩
  · rfl
  · obtain ⟨editors, -, ⟨-, rfl⟩ | ⟨val, -, rfl⟩⟩ := interact_eq_ok hresult
    · rfl
    · simp [send_eq]

/-- Of all frames, only a list of definitions makes a session ready. -/
theorem listsDefinitions_of_isReady (h : s.handle (.frame payload) = some s')
    (hnot : s.isReady = false) (hready : s'.isReady = true) : listsDefinitions payload = true := by
  obtain ⟨⟨u, problems⟩, hu, rfl⟩ := Option.map_eq_some_iff.mp h
  have hchanged : u.isReady ≠ s.isReady := by
    rw [hnot]
    exact ne_of_eq_of_ne hready (by simp)
  rw [handleFrame] at hu
  split_ifs at hu with hdis
  · exact absurd (congrArg isReady (eq_of_some_mk_eq hu)) hchanged
  · rw [listsDefinitions]
    cases hmessage : Inbound.classify payload with
    | error fault =>
      rw [hmessage] at hu
      exact absurd (congrArg isReady (eq_of_some_mk_eq hu)) hchanged
    | ok message =>
      rw [hmessage] at hu
      cases message with
      | definitions definitions rejected => rfl
      | nodes names =>
        obtain ⟨t, sent, hreselects, ht⟩ := reselects_updateNodes hdis names
        have hu' : u = t.sendAll sent := by rw [← ht, Option.some.inj hu]
        have hbefore := hreselects.isReady (hu' ▸ hready)
        exact absurd (hnot.symm.trans hbefore) (by simp)
      | push id val =>
        have hhandled : s.handleMessage (.push id val) = some (u, problems) := hu
        rw [handleMessage, hnot] at hhandled
        exact absurd (congrArg isReady (eq_of_some_mk_eq hhandled)) hchanged
      | unrecognized | other =>
        exact absurd (congrArg isReady (eq_of_some_mk_eq hu)) hchanged

end Session

/-- A frame was sent after the server had handled the first of some records, and if it lists
definitions, a node was chosen then. -/
structure Parcel.IsSent (p : Parcel) (known : List String) : Prop where
  /-- The server had handled the first of the records. -/
  isPrefix : p.known <+: known
  /-- Definitions are those of a node. -/
  sender_ne : listsDefinitions p.payload = true → p.sender ≠ noNode

theorem Parcel.IsSent.mono {p : Parcel} {known known' : List String} (h : p.IsSent known)
    (hknown : known <+: known') : p.IsSent known' :=
  ⟨h.isPrefix.trans hknown, h.sender_ne⟩

namespace Exchange

variable {x x' : Exchange} {s s' : Session} {node : String} {incident : Incident} {now : Move}
  {run : List Move} {payload : List UInt8}

/-- What holds at any time: the last record names the selected node, and every frame under way, and
the one whose definitions are loaded, was sent after the first of the records had been handled. -/
structure IsRegular (x : Exchange) : Prop where
  /-- The session is open. -/
  isOpen : x.session.IsOpen
  /-- The last record names the selected node. -/
  selectionName_eq : x.session.selectionName = x.named.getLastD noNode
  /-- The frames under way have been sent. -/
  underway : ∀ p ∈ x.toClient, p.IsSent x.known
  /-- So has the one that was loaded, which lists definitions. -/
  loaded : x.session.isReady = true → ∃ p, x.loaded? = some p ∧
    listsDefinitions p.payload = true ∧ p.IsSent x.known

theorem isRegular_start (hopen : s.outboxOpen = true) (houtbox : s.outbox = []) :
    (start s).IsRegular where
  isOpen := isOpen_onConnected hopen
  selectionName_eq := by
    have hnamed : (start s).named = [] := by
      simp [named, start, onConnected, reset, houtbox, choices]
    rw [hnamed]
    rfl
  underway p hp := absurd hp List.not_mem_nil
  loaded hready := absurd hready (by simp [start, onConnected, isReady])

/-- What the session queues leads from the node named before to the selected one. -/
theorem IsRegular.session (h : x.IsRegular) (hhandle : x.session.handle incident = some s') :
    s'.IsOpen ∧ s'.selectionName = ({ x with session := s' } : Exchange).named.getLastD noNode := by
  have hrun : x.session.handleAll [incident] = some s' := by simp [handleAll, hhandle]
  obtain ⟨hopen, queued, houtbox, hname, -⟩ := choices_of_handleAll h.isOpen hrun
  refine ⟨hopen, ?_⟩
  rw [hname, h.selectionName_eq, named, named, houtbox, choices_append, ← List.append_assoc]
  simp only [List.getLastD_eq_getLast?, List.getLast?_append, Option.getD_or]

/-- The session of a regular exchange may go on without becoming ready. -/
theorem IsRegular.of_session (h : x.IsRegular) (hhandle : x.session.handle incident = some s')
    (hready : s'.isReady = true → x.session.isReady = true) :
    ({ x with session := s' } : Exchange).IsRegular := by
  obtain ⟨hopen, hname⟩ := h.session hhandle
  exact ⟨hopen, hname, h.underway, fun hready' => h.loaded (hready hready')⟩

/-- A frame that the server sends is under way with what the server has handled. -/
theorem IsRegular.send (h : x.IsRegular)
    (hsender : listsDefinitions payload = true → x.known.getLastD noNode ≠ noNode) :
    (x.send payload).IsRegular := by
  refine ⟨h.isOpen, h.selectionName_eq, fun p hp => ?_, h.loaded⟩
  rcases List.mem_append.mp hp with hp | hp
  · exact h.underway p hp
  · obtain rfl := List.mem_singleton.mp hp
    exact ⟨List.prefix_refl _, hsender⟩

theorem choices_cons (m : Outbound) (rest : List Outbound) :
    choices (m :: rest) = choices [m] ++ choices rest :=
  choices_append [m] rest

/-- Writing a message puts it behind those under way. -/
theorem IsRegular.write (h : x.IsRegular) {m : Outbound} {rest : List Outbound}
    (houtbox : x.session.outbox = m :: rest) :
    ({ x with
      session := { x.session with outbox := rest }
      toServer := x.toServer ++ [m] } : Exchange).IsRegular := by
  have hname : x.session.selectionName = x.named.getLastD noNode := h.selectionName_eq
  refine ⟨⟨h.isOpen.outboxOpen, fun hready => ?_, h.isOpen.selected_ne⟩, ?_, h.underway, h.loaded⟩
  · have hblank := h.isOpen.isKept hready
    exact ⟨hblank.registry_eq, hblank.isBare⟩
  · rw [selectionName, selected?] at hname ⊢
    rw [hname]
    simp only [named, houtbox, choices_cons m rest, choices_append, List.append_assoc]

/-- Once the server has handled a message, it knows what this names. -/
theorem IsRegular.serve (h : x.IsRegular) {m : Outbound} {rest : List Outbound}
    (hrest : x.toServer = m :: rest) :
    ({ x with toServer := rest, known := x.known ++ choices [m] } : Exchange).IsRegular := by
  have hprefix : x.known <+: x.known ++ choices [m] := List.prefix_append _ _
  refine ⟨h.isOpen, ?_, fun p hp => (h.underway p hp).mono hprefix, fun hready => ?_⟩
  · rw [h.selectionName_eq]
    simp only [named, hrest, choices_cons m rest, List.append_assoc]
  · obtain ⟨p, hp, hlists, hsent⟩ := h.loaded hready
    exact ⟨p, hp, hlists, hsent.mono hprefix⟩

/-- A session that handles a frame becomes ready with it or has been so before. -/
theorem IsRegular.deliver (h : x.IsRegular) {p : Parcel} {rest : List Parcel}
    (hrest : x.toClient = p :: rest) (hhandle : x.session.handle (.frame p.payload) = some s') :
    ({ x with
      session := s'
      toClient := rest
      loaded? := if !x.session.isReady && s'.isReady then some p else x.loaded? } :
        Exchange).IsRegular := by
  obtain ⟨hopen, hname⟩ := h.session hhandle
  have hsent : p.IsSent x.known := h.underway p (hrest ▸ List.mem_cons_self)
  refine ⟨hopen, hname, fun q hq => h.underway q (hrest ▸ List.mem_cons_of_mem p hq), ?_⟩
  intro hready
  have hready' : s'.isReady = true := hready
  cases hbefore : x.session.isReady with
  | true =>
    obtain ⟨q, hq, hlists, hq'⟩ := h.loaded hbefore
    exact ⟨q, by simp [hq], hlists, hq'⟩
  | false =>
    have hlists := listsDefinitions_of_isReady hhandle hbefore hready'
    exact ⟨p, by simp [hready'], hlists, hsent⟩

/-- Every move of a regular exchange leads to a regular one. -/
theorem IsRegular.move (h : x.IsRegular) (hmove : x.move now = some x') : x'.IsRegular := by
  cases now with
  | select node =>
    obtain ⟨s', hhandle, rfl⟩ := Option.map_eq_some_iff.mp hmove
    exact h.of_session hhandle fun hready => isReady_of_select hhandle hready
  | interact id interaction =>
    obtain ⟨s', hhandle, rfl⟩ := Option.map_eq_some_iff.mp hmove
    refine h.of_session hhandle fun hready => ?_
    rwa [isReady, state_of_interact hhandle] at hready
  | write =>
    rw [Exchange.move] at hmove
    split at hmove
    · cases hmove
    · next m rest houtbox => exact Option.some.inj hmove ▸ h.write houtbox
  | serve answer =>
    rw [Exchange.move] at hmove
    split at hmove
    · cases hmove
    · next id val rest hrest =>
      obtain rfl := Option.some.inj hmove
      have hserved := h.serve hrest
      rwa [show choices [.update id val] = [] from rfl, List.append_nil] at hserved
    · next node rest hrest =>
      have hserved := h.serve hrest
      split_ifs at hmove with hnone hlists
      · exact Option.some.inj hmove ▸ hserved
      · -- The answer comes from the node that has just been named.
        obtain rfl := Option.some.inj hmove
        refine hserved.send fun _ => ?_
        change (x.known ++ [node]).getLastD noNode ≠ noNode
        rwa [List.getLastD_concat]
  | tell payload =>
    rw [Exchange.move] at hmove
    split_ifs at hmove with hmay
    obtain rfl := Option.some.inj hmove
    refine h.send fun hlists => ?_
    rw [listsDefinitions] at hlists
    rw [mayTell] at hmay
    split at hlists
    · next definitions rejected hmessage => simpa [hmessage] using hmay
    · cases hlists
  | deliver =>
    rw [Exchange.move] at hmove
    split at hmove
    · cases hmove
    · next p rest hrest =>
      obtain ⟨s', hhandle, rfl⟩ := Option.map_eq_some_iff.mp hmove
      exact h.deliver hrest hhandle

theorem IsRegular.moves (h : x.IsRegular) (hrun : x.moves run = some x') : x'.IsRegular := by
  induction run generalizing x with
  | nil => exact Option.some.inj hrun ▸ h
  | cons now later ih =>
    rw [Exchange.moves, List.foldlM_cons] at hrun
    obtain ⟨u, hu, hlater⟩ := Option.bind_eq_some_iff.mp hrun
    exact ih (h.move hu) hlater

/-- Of which node the loaded definitions are. A session and a server make any moves on a connection.
If the session is ready then, the last record that it has queued names its node. The definitions it
has loaded were sent after the server had handled the first of the records, and are of the node that
the last one of these names. If those were all the records, they are of the node of the session. -/
theorem sender_of_isReady (hopen : s.outboxOpen = true) (houtbox : s.outbox = [])
    (hrun : (start s).moves run = some x) (hready : x.session.state = .ready node) :
    x.named.getLast? = some node ∧
    ∃ p, x.loaded? = some p ∧ listsDefinitions p.payload = true ∧ p.sender ≠ noNode ∧
      p.known <+: x.named ∧ (p.known = x.named → p.sender = node) := by
  have hx := (isRegular_start hopen houtbox).moves hrun
  have hselected : x.session.selected? = some node := by simp [selected?, hready, NodeState.node?]
  have hname : x.named.getLastD noNode = node := by
    rw [← hx.selectionName_eq, selectionName, hselected]
    rfl
  have hnode : node ≠ noNode := by
    rintro rfl
    exact hx.isOpen.selected_ne hselected
  obtain ⟨p, hp, hlists, hsent⟩ := hx.loaded (by simp [isReady, hready])
  have hprefix : p.known <+: x.named := by
    rw [named, List.append_assoc]
    exact hsent.isPrefix.trans (List.prefix_append _ _)
  refine ⟨?_, p, hp, hlists, hsent.sender_ne hlists, hprefix, fun hall => ?_⟩
  · rw [List.getLastD_eq_getLast?] at hname
    cases hlast : x.named.getLast? with
    | none => exact absurd (by simpa [hlast] using hname.symm) hnode
    | some last => simpa [hlast] using hname
  · rw [Parcel.sender, hall, hname]

/-- The session picks the first node, whose definitions come, and then selects the other one, whose
definitions come in their turn. -/
def inTurn : List Move :=
  [.tell sampleNodes, .deliver, .write, .serve sampleDefinitions, .deliver,
    .select "b", .write, .serve sampleDefinitions, .deliver]

theorem sender_inTurn :
    (new none).outboxOpen = true ∧ (new none).outbox = [] ∧
    ∃ x p, (start (new none)).moves inTurn = some x ∧ x.session.state = .ready "b" ∧
      x.loaded? = some p ∧ p.known = x.named ∧ p.sender = "b" := by
  have hstate : ((start (new none)).moves inTurn).map (fun x =>
      (x.session.state, x.loaded?.map Parcel.known, x.named)) =
      some (.ready "b", some ["a", "b"], ["a", "b"]) := by decide +kernel
  obtain ⟨x, hrun, hx⟩ := Option.map_eq_some_iff.mp hstate
  simp only [Prod.mk.injEq] at hx
  obtain ⟨hready, hknown, hnamed⟩ := hx
  obtain ⟨-, p, hp, -, -, -, hsender⟩ := sender_of_isReady rfl rfl hrun hready
  rw [hp, Option.map_some, Option.some_inj] at hknown
  have hall : p.known = x.named := hknown.trans hnamed.symm
  exact ⟨rfl, rfl, x, p, hrun, hready, hp, hall, hsender hall⟩

/-- The other node is selected while the definitions of the first one are under way. -/
def crossing : List Move :=
  [.tell sampleNodes, .deliver, .write, .serve sampleDefinitions, .select "b", .deliver]

/-- A session may be ready for a node with the definitions of another one. -/
theorem exists_foreign :
    ∃ x p, (start (new none)).moves crossing = some x ∧ x.session.state = .ready "b" ∧
      x.loaded? = some p ∧ listsDefinitions p.payload = true ∧ p.sender = "a" := by
  have hstate : ((start (new none)).moves crossing).map (fun x =>
      (x.session.state, x.loaded?.map fun p => (listsDefinitions p.payload, p.sender))) =
      some (.ready "b", some (true, "a")) := by decide +kernel
  obtain ⟨x, hrun, hx⟩ := Option.map_eq_some_iff.mp hstate
  simp only [Prod.mk.injEq] at hx
  obtain ⟨hready, hloaded⟩ := hx
  obtain ⟨p, hp, hp'⟩ := Option.map_eq_some_iff.mp hloaded
  simp only [Prod.mk.injEq] at hp'
  exact ⟨x, p, hrun, hready, hp, hp'.1, hp'.2⟩

end Exchange

end LiveTuner
