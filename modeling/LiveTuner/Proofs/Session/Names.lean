import LiveTuner.Proofs.Message.Choice
import LiveTuner.Proofs.Session.Step

/-!
# Names from the list to the choice

A name comes in with a list of nodes, is kept as the text that it is, and goes out again when the
node is selected: at once, if the session picks it, or whenever the user selects it while the list
stands. What goes out is read as the name that came in. Only the reserved name is dropped on the
way.

Until the next list comes, nothing that happens to the session touches the list.

## Main definitions

* `Session.KeepsList` — the list of nodes stands, and the connection with it
* `Session.Offers` — the node can be selected, and its choice survives

## Main results

* `Session.keepsList_of_handleAll` — without another list, the list stands
* `Session.names_survive` — every listed name comes back as it was sent
-/

namespace LiveTuner.Session

variable {s s' t u : Session} {node : String} {names : List String} {problems : List Problem}
  {id : ParamId} {val : Value} {payload : List UInt8}

/-! ### The list stands -/

/-- The connection and the list of nodes of a session stand in another one. -/
structure KeepsList (s t : Session) : Prop where
  /-- There is still a connection. -/
  connected : s.state ≠ .disconnected → t.state ≠ .disconnected
  /-- The same nodes are listed. -/
  available_eq : t.available = s.available
  /-- Messages are taken as before. -/
  outboxOpen_eq : t.outboxOpen = s.outboxOpen

namespace KeepsList

theorem refl (s : Session) : s.KeepsList s := ⟨id, rfl, rfl⟩

theorem trans (h : s.KeepsList t) (h' : t.KeepsList u) : s.KeepsList u where
  connected hs := h'.connected (h.connected hs)
  available_eq := h'.available_eq.trans h.available_eq
  outboxOpen_eq := h'.outboxOpen_eq.trans h.outboxOpen_eq

theorem send (h : s.KeepsList t) (m : Outbound) : s.KeepsList (t.send m) := by
  rw [send_eq]
  exact ⟨h.connected, h.available_eq, h.outboxOpen_eq⟩

end KeepsList

theorem keepsList_selectNode {changed : Bool} (h : s.selectNode node = .ok (t, changed)) :
    s.KeepsList t := by
  rw [selectNode] at h
  split_ifs at h
  · rw [deselect] at h
    split at h
    · obtain ⟨rfl, -⟩ := Prod.mk.inj (Except.ok.inj h)
      exact .refl s
    · obtain ⟨rfl, -⟩ := Prod.mk.inj (Except.ok.inj h)
      apply KeepsList.send
      exact ⟨fun _ => NodeState.noConfusion, rfl, rfl⟩
  · obtain ⟨rfl, -⟩ := Prod.mk.inj (Except.ok.inj h)
    exact .refl s
  · obtain ⟨rfl, -⟩ := Prod.mk.inj (Except.ok.inj h)
    apply KeepsList.send
    exact ⟨fun _ => NodeState.noConfusion, rfl, rfl⟩

theorem keepsList_load (s : Session) (params : List Param) : s.KeepsList (s.load params) where
  connected hs := by
    rw [load]
    cases hstate : s.state <;> simp_all
  available_eq := rfl
  outboxOpen_eq := rfl

/-- Only a list of nodes touches the list of nodes. -/
theorem keepsList_handleMessage {message : Inbound} (hmessage : ∀ names, message ≠ .nodes names)
    (h : s.handleMessage message = some (t, problems)) : s.KeepsList t := by
  cases message with
  | nodes names => exact absurd rfl (hmessage names)
  | unrecognized _ => exact eq_of_some_mk_eq h ▸ .refl s
  | definitions definitions rejected =>
    rw [handleMessage] at h
    split_ifs at h
    · exact eq_of_some_mk_eq h ▸ keepsList_load s _
    · obtain ⟨⟨u, _⟩, hu, h⟩ := Option.bind_eq_some_iff.mp h
      obtain ⟨editors, rfl⟩ := redefine_eq hu
      exact eq_of_some_mk_eq h ▸ ⟨fun hs => hs, rfl, rfl⟩
    · exact eq_of_some_mk_eq h ▸ .refl s
  | push id val =>
    rw [handleMessage] at h
    split_ifs at h
    · obtain ⟨registry, editors, rfl⟩ := pushValue_eq h
      exact ⟨fun hs => hs, rfl, rfl⟩
    · exact eq_of_some_mk_eq h ▸ .refl s
  | other _ => exact eq_of_some_mk_eq h ▸ .refl s

/-- The incident brings no list of nodes. -/
def Incident.BringsNoList : Incident → Prop
  | .frame payload => ∀ names, Inbound.classify payload ≠ .ok (.nodes names)
  | _ => True

theorem keepsList_handle {incident : Incident} (hlist : incident.BringsNoList)
    (h : s.handle incident = some t) : s.KeepsList t := by
  cases incident with
  | frame payload =>
    obtain ⟨⟨t, problems⟩, hframe, rfl⟩ := Option.map_eq_some_iff.mp h
    rw [handleFrame] at hframe
    split_ifs at hframe
    · exact eq_of_some_mk_eq hframe ▸ .refl s
    · split at hframe
      · next message hmessage =>
        refine keepsList_handleMessage (fun names hnames => ?_) hframe
        exact hlist names (hnames ▸ hmessage)
      · exact eq_of_some_mk_eq hframe ▸ .refl s
  | select node =>
    rw [handle] at h
    split at h
    · next hselect => exact Option.some.inj h ▸ keepsList_selectNode hselect
    · exact Option.some.inj h ▸ .refl s
  | interact id interaction =>
    obtain ⟨result, hresult, rfl⟩ := Option.map_eq_some_iff.mp h
    rcases result with problem | ⟨t, val?⟩
    · exact .refl s
    · obtain ⟨editors, -, ⟨-, rfl⟩ | ⟨val, -, rfl⟩⟩ := interact_eq_ok hresult
      · exact ⟨fun hs => hs, rfl, rfl⟩
      · apply KeepsList.send
        exact ⟨fun hs => hs, rfl, rfl⟩

/-- Over any run without another list, the list stands. -/
theorem keepsList_handleAll {incidents : List Incident}
    (hlist : ∀ incident ∈ incidents, incident.BringsNoList)
    (h : s.handleAll incidents = some t) : s.KeepsList t := by
  induction incidents generalizing s with
  | nil => exact Option.some.inj h ▸ .refl s
  | cons incident rest ih =>
    obtain ⟨hincident, hrest⟩ := List.forall_mem_cons.mp hlist
    obtain ⟨u, hu, h⟩ := Option.bind_eq_some_iff.mp h
    exact (keepsList_handle hincident hu).trans (ih hrest h)

/-! ### Names -/

/-- The user can select the node. Unless it is selected already, that queues its choice, which
survives. -/
def Offers (s : Session) (node : String) : Prop :=
  (s.selected? = some node ∧ s.selectNode node = .ok (s, false)) ∨
    ∃ t, s.selectNode node = .ok (t, true) ∧ t.outbox = s.outbox ++ [.choose node] ∧
      t.selected? = some node ∧ Outbound.Survives node

theorem offers_of_mem (hconnected : s.state ≠ .disconnected) (hopen : s.outboxOpen = true)
    (hmem : node ∈ s.available) (hnode : node ≠ noNode) : s.Offers node := by
  by_cases hselected : s.selected? = some node
  · exact .inl ⟨hselected, by rw [selectNode, if_neg hconnected, if_neg hnode, if_pos hselected]⟩
  · right
    have hlisted : ¬ (!s.available.contains node) = true := by simpa using hmem
    have hselect : s.selectNode node =
        .ok ({ s.reset with state := .awaiting node }.send (.choose node), true) := by
      rw [selectNode, if_neg hconnected, if_neg hnode, if_neg hselected, if_neg hlisted]
    refine ⟨_, hselect, ?_, ?_, Outbound.survives_of_ne hnode⟩
    · rw [send_eq]
      exact if_pos hopen
    · rw [send_eq]
      rfl

/-- No session picks the reserved name. -/
theorem ne_noNode_of_pick? (h : (s.listed names).pick? = some node) : node ≠ noNode := by
  have hmem := mem_available_of_pick? h
  rintro rfl
  simp [listed] at hmem

/-- Where nothing is selected, the choice of the node to pick is queued. -/
theorem outbox_updateNodes_of_pick? (hselected : s.selected? = none) (hs : s.state ≠ .disconnected)
    (hopen : s.outboxOpen = true) (h : (s.listed names).pick? = some node) :
    (s.updateNodes names).1.outbox = s.outbox ++ [.choose node] := by
  have hstate : (s.listed names).state = .noNode := state_of_selected?_eq_none hs hselected
  have hselect : (s.listed names).selectNode node =
      .ok ({ (s.listed names).reset with state := .awaiting node }.send (.choose node), true) := by
    simp [selectNode, selected?, hstate, NodeState.node?, ne_noNode_of_pick? h,
      mem_available_of_pick? h]
  rw [updateNodes_of_none hselected, pickNode, h]
  simp only [hselect, send_eq]
  exact if_pos hopen

theorem keepsList_pickNode (s : Session) (hadSelected : Bool) :
    s.KeepsList (s.pickNode hadSelected).1 := by
  rw [pickNode]
  split
  · split
    · next hselect => exact keepsList_selectNode hselect
    · exact .refl s
  · split_ifs
    · exact (KeepsList.refl s).send _
    · exact .refl s

theorem keepsList_updateNodes (s : Session) (names : List String) :
    (s.listed names).KeepsList (s.updateNodes names).1 := by
  cases hselected : s.selected? with
  | some node =>
    rw [updateNodes_of_selected hselected]
    split_ifs
    · exact .refl _
    · refine KeepsList.trans ?_ (keepsList_pickNode _ true)
      exact ⟨fun _ => NodeState.noConfusion, rfl, rfl⟩
  | none =>
    rw [updateNodes_of_none hselected]
    exact keepsList_pickNode _ false

/-- A node that is named when nodes are listed is one of them, and selected. -/
theorem exists_updateNodes (hs : s.state ≠ .disconnected) (hopen : s.outboxOpen = true)
    (names : List String) : ∃ sent, (s.updateNodes names).1.outbox = s.outbox ++ sent ∧
      ∀ node, .choose node ∈ sent → node ≠ noNode →
        node ∈ names ∧ (s.updateNodes names).1.selected? = some node := by
  -- In whatever way the session is left, only a selection names a real node.
  obtain ⟨t, sent, hreselects, ht⟩ := reselects_updateNodes hs names
  have havailable := (keepsList_updateNodes s names).available_eq
  rw [ht, sendAll_eq] at havailable ⊢
  refine ⟨sent, ?_, fun node hnode hreal => ?_⟩
  · cases hreselects <;> exact if_pos hopen
  · cases hreselects with
    | keeps => exact absurd hnode List.not_mem_nil
    | selects available advertised node' hlisted =>
      cases List.mem_singleton.mp hnode
      have hnames : available = names.filter (· ≠ noNode) := havailable
      exact ⟨List.mem_of_mem_filter (hnames ▸ hlisted), rfl⟩
    | deselects =>
      cases List.mem_singleton.mp hnode
      exact absurd rfl hreal

/-- Names survive the wire. However the server writes its list of nodes, a session on a connection
takes the names as they are, but for the reserved one. If it picks a node, that is one of them; and
as long as no other list comes, whatever happens, the user can select any of them. Either way the
choice that is queued comes back as the same name. -/
theorem names_survive {text : List Char} (htext : Inbound.Announces text names)
    (hs : s.state ≠ .disconnected) (hopen : s.outboxOpen = true) :
    ∃ t problems sent, s.handleFrame (Utf8.encode text) = some (t, problems) ∧
      t.available = names.filter (· ≠ noNode) ∧ t.outbox = s.outbox ++ sent ∧
      (∀ node, .choose node ∈ sent → node ≠ noNode →
        node ∈ names ∧ t.selected? = some node ∧ Outbound.Survives node) ∧
      (s.selected? = none → ∀ node, (s.listed names).pick? = some node →
        sent = [.choose node] ∧ t.selected? = some node ∧ Outbound.Survives node) ∧
      ∀ incidents u, (∀ incident ∈ incidents, incident.BringsNoList) →
        t.handleAll incidents = some u → ∀ node ∈ names, node ≠ noNode → u.Offers node := by
  have hframe : s.handleFrame (Utf8.encode text) = some (s.updateNodes names) := by
    rw [handleFrame, if_neg hs, Inbound.classify_of_announces htext]
    rfl
  have hkeeps := keepsList_updateNodes s names
  obtain ⟨sent, houtbox, hsent⟩ := exists_updateNodes hs hopen names
  refine ⟨_, _, sent, hframe, hkeeps.available_eq, houtbox, fun node hnode hreal => ?_, ?_, ?_⟩
  · obtain ⟨hmem, hselected⟩ := hsent node hnode hreal
    exact ⟨hmem, hselected, Outbound.survives_of_ne hreal⟩
  · intro hselected node hpick
    have hpicked := outbox_updateNodes_of_pick? hselected hs hopen hpick
    have hone : sent = [.choose node] := List.append_cancel_left (houtbox.symm.trans hpicked)
    have hreal := ne_noNode_of_pick? hpick
    have hnamed := hsent node (hone ▸ List.mem_singleton_self _) hreal
    exact ⟨hone, hnamed.2, Outbound.survives_of_ne hreal⟩
  · -- What the user selects from later on is still what was listed now.
    intro incidents u hlist hrun node hmem hreal
    have hlater := hkeeps.trans (keepsList_handleAll hlist hrun)
    refine offers_of_mem (hlater.connected hs) (hlater.outboxOpen_eq.trans hopen) ?_ hreal
    rw [hlater.available_eq]
    exact List.mem_filter.mpr ⟨hmem, decide_eq_true hreal⟩

/-- A list of two nodes, one of them with the reserved name. The name of the other is written in
escapes, the character past four digits by its halves. -/
def escapedListing : List Char :=
  '\x7b' :: (Json.textChars Inbound.nodesKey ++ [' '] ++ ':' ::
    ('[' :: "\"\\ud83d\\ude00\\\"\", \"None\"]".toList ++ ['\x7d']))

theorem announces_escapedListing : Inbound.Announces escapedListing ["😀\"", "None"] := by
  have hblank : Json.AreGaps [' '] := by simp [Json.AreGaps, Json.isGap]
  have hescaped : Json.IsLiteral "\"\\ud83d\\ude00\\\"\"".toList "😀\"".toList :=
    ⟨["\\ud83d\\ude00".toList, "\\\"".toList],
      .cons (.halves (by decide) (by decide) (by decide)) (.cons (.letter rfl) .nil), rfl⟩
  have hlisting := Json.IsListing.start Json.areGaps_nil hescaped
    (.comma Json.areGaps_nil hblank (Json.isLiteral_textChars "None") (.close Json.areGaps_nil))
  have hrecord := Inbound.Announces.record Json.areGaps_nil Json.areGaps_nil
    (Json.isLiteral_textChars Inbound.nodesKey) hblank Json.areGaps_nil hlisting
    Json.areGaps_nil Json.areGaps_nil
  exact hrecord

/-- A new session picks the node whose name is written in escapes, and its choice survives. -/
theorem names_survive_escapedListing :
    Inbound.Announces escapedListing ["😀\"", "None"] ∧
    (new none).onConnected.state ≠ .disconnected ∧ (new none).onConnected.outboxOpen = true ∧
    ∃ t problems, (new none).onConnected.handleFrame (Utf8.encode escapedListing) =
        some (t, problems) ∧
      t.available = ["😀\""] ∧ t.outbox = [.choose "😀\""] ∧ Outbound.Survives "😀\"" := by
  have hconnected : (new none).onConnected.state ≠ .disconnected := NodeState.noConfusion
  obtain ⟨t, problems, sent, hframe, havailable, houtbox, -, hpicked, -⟩ :=
    names_survive announces_escapedListing hconnected rfl
  obtain ⟨rfl, -, hsurvives⟩ := hpicked rfl "😀\"" (by decide)
  exact ⟨announces_escapedListing, hconnected, rfl, t, problems, hframe,
    havailable.trans (by decide), houtbox, hsurvives⟩

end LiveTuner.Session
