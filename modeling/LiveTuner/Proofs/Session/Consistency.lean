import LiveTuner.Proofs.Session.Agreement
import LiveTuner.Proofs.Session.Selection

/-!
# What goes together in a session

The state of a session, the nodes it knows, its definitions and its editors are set one by one, by
many handlers. They go together all the same: definitions and editors are there only while the
session is ready, a selected node is one that the server has listed, the reserved name is none of
those, and without a connection nothing is known at all.

## Main definitions

* `Session.IsNew` — a session as it begins
* `Session.IsListed` — the selection is among the listed nodes
* `Session.IsConsistent` — what is loaded goes with the state as well

## Main results

* `Session.IsConsistent.turn` — every turn keeps a session consistent
* `Session.handle_of_disconnected` — without a connection nothing changes
* `Session.isConsistent_of_turns` — what this says of the life of a new session
-/

namespace LiveTuner

namespace Session

variable {s s' t start : Session} {node : String} {id : ParamId} {val : Value}
  {sent : List Outbound} {life : List Turn}

/-- A selected node is listed, the reserved name is not, and without a connection no node is. -/
structure IsListed (s : Session) : Prop where
  /-- The reserved name is not listed. -/
  noNode_notMem : noNode ∉ s.available
  /-- A selected node is listed. -/
  selected_mem : ∀ node, s.selected? = some node → node ∈ s.available
  /-- Without a connection, no node is listed. -/
  available_eq : s.state = .disconnected → s.available = []

/-- The parts of a session go together: unless the definitions of a node are loaded, nothing is, and
a selected node is listed. -/
structure IsConsistent (s : Session) : Prop where
  /-- Unless the definitions of a node are loaded, nothing is. -/
  isKept : s.IsKept
  /-- A selected node is listed. -/
  isListed : s.IsListed

/-- A session as it begins, which may prefer a node or be pinned to one. -/
inductive IsNew : Session → Prop where
  /-- Any node may be picked. -/
  | plain (preferred : Option String) : IsNew (new preferred)
  /-- Only the given node may be picked. -/
  | pinned (node : String) : IsNew (pinnedTo node)

/-- Without a connection and without listed nodes, there is nothing to go together. -/
theorem isListed_of_disconnected (hstate : s.state = .disconnected) (h : s.available = []) :
    s.IsListed := by
  refine ⟨by simp [h], fun node hnode => ?_, fun _ => h⟩
  rw [selected?, hstate] at hnode
  cases hnode

/-- With no node selected on a connection, it is enough that the reserved name is not listed. -/
theorem isListed_of_noNode (hstate : s.state = .noNode) (h : noNode ∉ s.available) :
    s.IsListed := by
  refine ⟨h, fun node hnode => ?_, fun hdis => ?_⟩
  · rw [selected?, hstate] at hnode
    cases hnode
  · exact absurd (hstate.symm.trans hdis) (by simp)

theorem isListed_of_awaiting (hstate : s.state = .awaiting node) (h : noNode ∉ s.available)
    (hnode : node ∈ s.available) : s.IsListed := by
  refine ⟨h, fun node' hnode' => ?_, fun hdis => ?_⟩
  · rw [selected?, hstate] at hnode'
    exact Option.some.inj hnode' ▸ hnode
  · exact absurd (hstate.symm.trans hdis) (by simp)

theorem IsNew.isConsistent (h : s.IsNew) : s.IsConsistent := by
  cases h with
  | plain preferred => exact ⟨fun _ => isBlank_new preferred, isListed_of_disconnected rfl rfl⟩
  | pinned node =>
    have hblank := isBlank_new (some node)
    exact ⟨fun _ => ⟨hblank.registry_eq, hblank.isBare⟩, isListed_of_disconnected rfl rfl⟩

/-- What is listed concerns the state and the listed nodes only. -/
theorem IsListed.congr (h : s.IsListed) (hstate : s'.state = s.state)
    (havailable : s'.available = s.available) : s'.IsListed := by
  refine ⟨havailable ▸ h.noNode_notMem, fun node hnode => ?_, fun hdis => ?_⟩
  · rw [selected?, hstate] at hnode
    exact havailable ▸ h.selected_mem node hnode
  · exact havailable.trans (h.available_eq (hstate.symm.trans hdis))

theorem IsListed.send (h : s.IsListed) (m : Outbound) : (s.send m).IsListed := by
  rw [send_eq]
  exact h.congr rfl rfl

/-! ### Selecting -/

theorem IsListed.selectNode {changed : Bool} (h : s.IsListed)
    (hselect : s.selectNode node = .ok (s', changed)) : s'.IsListed := by
  rw [Session.selectNode] at hselect
  split_ifs at hselect with hdis hnone hsame hlisted
  · rw [deselect] at hselect
    split at hselect
    · obtain ⟨rfl, -⟩ := Prod.mk.inj (Except.ok.inj hselect)
      exact h
    · obtain ⟨rfl, -⟩ := Prod.mk.inj (Except.ok.inj hselect)
      apply IsListed.send
      exact isListed_of_noNode rfl h.noNode_notMem
  · obtain ⟨rfl, -⟩ := Prod.mk.inj (Except.ok.inj hselect)
    exact h
  · obtain ⟨rfl, -⟩ := Prod.mk.inj (Except.ok.inj hselect)
    have hmem : node ∈ s.available := by simpa using hlisted
    apply IsListed.send
    exact isListed_of_awaiting rfl h.noNode_notMem hmem

theorem isListed_pickNode (hadSelected : Bool) (hstate : s.state = .noNode)
    (h : noNode ∉ s.available) : (s.pickNode hadSelected).1.IsListed := by
  rcases pickNode_eq hadSelected hstate h with ⟨node, hmem, -, heq⟩ | heq
  · rw [heq]
    apply IsListed.send
    exact isListed_of_awaiting rfl h hmem
  · rw [heq]
    split
    · exact (isListed_of_noNode hstate h).send _
    · exact isListed_of_noNode hstate h

/-- Whatever the server lists, a node that is selected then is listed. -/
theorem isListed_updateNodes (hconnected : s.state ≠ .disconnected) (names : List String) :
    (s.updateNodes names).1.IsListed := by
  have hlisted : noNode ∉ (s.listed names).available := by simp [listed]
  cases hsel : s.selected? with
  | some node =>
    rw [updateNodes_of_selected hsel]
    split_ifs with hstill
    · refine ⟨hlisted, fun node' hnode' => ?_, fun hdis => absurd hdis hconnected⟩
      obtain rfl : node = node' := Option.some.inj (hsel.symm.trans hnode')
      simpa using hstill
    · exact isListed_pickNode true rfl hlisted
  | none =>
    rw [updateNodes_of_none hsel]
    exact isListed_pickNode false (state_of_selected?_eq_none hconnected hsel) hlisted

/-! ### Any incident -/

/-- Loading makes the node ready that was selected, which is listed already. -/
theorem IsListed.load (h : s.IsListed) (hawaiting : s.isAwaiting = true) (params : List Param) :
    (s.load params).IsListed := by
  obtain ⟨node, hs, ht⟩ := load_state hawaiting params
  refine ⟨h.noNode_notMem, fun node' hnode' => ?_, fun hdis => ?_⟩
  · rw [selected?, ht] at hnode'
    exact h.selected_mem node' (by rw [selected?, hs]; exact hnode')
  · exact absurd (ht.symm.trans hdis) (by simp)

theorem IsListed.handle {incident : Incident} (h : s.IsListed)
    (hhandle : s.handle incident = some s') : s'.IsListed := by
  cases outcome_of_handle hhandle with
  | stays => exact h
  | lists hconnected names => exact isListed_updateNodes hconnected names
  | loads hawaiting definitions => exact h.load hawaiting _
  | redefines hready definitions hredefine =>
    obtain ⟨editors, rfl⟩ := redefine_eq hredefine
    exact h.congr rfl rfl
  | pushes hready id val hpush =>
    obtain ⟨registry, editors, rfl⟩ := pushValue_eq hpush
    exact h.congr rfl rfl
  | selects node hselect => exact h.selectNode hselect
  | edits id interaction hinteract =>
    obtain ⟨editors, -, ⟨-, rfl⟩ | ⟨val, -, rfl⟩⟩ := interact_eq_ok hinteract
    · exact h.congr rfl rfl
    · apply IsListed.send
      exact h.congr rfl rfl

/-! ### Any turn -/

/-- Every turn that comes to an end keeps a session consistent. -/
theorem IsConsistent.turn {now : Turn} (h : s.IsConsistent) (hturn : s.turn now = some s') :
    s'.IsConsistent := by
  have hdropped := s.isBlank_reset
  cases now with
  | connect =>
    obtain rfl := Option.some.inj hturn
    exact ⟨fun _ => ⟨hdropped.registry_eq, hdropped.isBare⟩,
      isListed_of_noNode rfl List.not_mem_nil⟩
  | disconnect =>
    obtain rfl := Option.some.inj hturn
    exact ⟨fun _ => ⟨hdropped.registry_eq, hdropped.isBare⟩,
      isListed_of_disconnected rfl rfl⟩
  | incident incident =>
    -- That nothing is loaded follows from the effect; what is listed takes the outcome itself.
    obtain ⟨t, sent, heffect, rfl⟩ := effect_of_handle h.isKept hturn
    exact ⟨heffect.isKept h.isKept, h.isListed.handle hturn⟩

theorem IsConsistent.turns (h : s.IsConsistent) (hlife : s.turns life = some s') :
    s'.IsConsistent :=
  kept_by_turns (fun _ _ _ hu hturn => hu.turn hturn) h hlife

/-- Without a connection, whatever is tried is refused. -/
theorem refuses_of_disconnected (h : s.state = .disconnected) :
    (∀ payload, s.handleFrame payload = some (s, [.notConnected])) ∧
    (∀ node, s.selectNode node = .error .notConnected) ∧
    ∀ id interaction, s.interact id interaction = some (.error .notConnected) :=
  ⟨fun _ => if_pos h, fun _ => if_pos h, fun _ _ => if_pos h⟩

/-- So nothing changes. -/
theorem handle_of_disconnected (h : s.state = .disconnected) (incident : Incident) :
    s.handle incident = some s := by
  obtain ⟨hframe, hselect, hinteract⟩ := refuses_of_disconnected h
  cases incident with
  | frame payload => simp [handle, hframe]
  | select node => simp [handle, hselect]
  | interact id interaction => simp [handle, hinteract]

/-- A new session, pinned to a node or not, lives any life: connections open and close, any frames
come in, and the user selects and edits in any order. Unless it is ready then, it has no definitions
and no editors. The reserved name is not listed; a selected node is listed, and so is not the
reserved name. Without a connection no node is listed, and every frame, selection and edit is
answered by that complaint and changes nothing. -/
theorem isConsistent_of_turns (hstart : start.IsNew) (hlife : start.turns life = some s) :
    (s.isReady = false → s.IsBlank) ∧
    noNode ∉ s.available ∧
    (∀ selected, s.selected? = some selected → selected ∈ s.available ∧ selected ≠ noNode) ∧
    (s.state = .disconnected → s.available = [] ∧
      (∀ payload, s.handleFrame payload = some (s, [.notConnected])) ∧
      (∀ node, s.selectNode node = .error .notConnected) ∧
      (∀ id interaction, s.interact id interaction = some (.error .notConnected)) ∧
      ∀ incident, s.handle incident = some s) := by
  obtain ⟨hkept, hlisted⟩ := hstart.isConsistent.turns hlife
  refine ⟨hkept, hlisted.noNode_notMem, fun selected hselected => ?_, fun hdis => ?_⟩
  · have hmem := hlisted.selected_mem selected hselected
    exact ⟨hmem, ne_of_mem_of_not_mem hmem hlisted.noNode_notMem⟩
  · obtain ⟨hframe, hselect, hinteract⟩ := refuses_of_disconnected hdis
    exact ⟨hlisted.available_eq hdis, hframe, hselect, hinteract, handle_of_disconnected hdis⟩

/-- The definitions of a node come in, and then the server lists its nodes without it. -/
def sampleVanishing : List Turn :=
  [.connect, .incident (.frame sampleNodes), .incident (.frame sampleDefinitions),
    .incident (.frame sampleListing)]

theorem isBlank_after_sampleVanishing :
    (pinnedTo "b").IsNew ∧
    ∃ s, (pinnedTo "b").turns sampleVanishing = some s ∧ s.state = .noNode ∧
      s.available = ["a"] ∧ s.IsBlank := by
  have hrun : ((pinnedTo "b").turns sampleVanishing).map (fun s => (s.state, s.available)) =
      some (.noNode, ["a"]) := by decide +kernel
  obtain ⟨s, hlife, hs⟩ := Option.map_eq_some_iff.mp hrun
  obtain ⟨hstate, havailable⟩ := Prod.mk.inj hs
  have hblank := (isConsistent_of_turns (.pinned "b") hlife).1
  exact ⟨.pinned "b", s, hlife, hstate, havailable, hblank (by simp [isReady, hstate])⟩

end Session

end LiveTuner
