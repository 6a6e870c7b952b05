import LiveTuner.Proofs.Session.Step
import Mathlib.Data.List.Chain

/-!
# What the server knows of the selection

The server learns which node is selected from the records that the session queues. The last one
names the selected node, the reserved name standing for none, and no record repeats the one before:
what the server knows and what the session has selected are the same at any time.

## Main definitions

* `Outbound.choice?`, `choices` — the node that a message names, and those that messages name
* `selectionName` — the selected node, or the reserved name

## Main results

* `Session.choices_of_handleAll` — the named nodes lead from one selection to the next
* `Session.selected_eq_lastChoice` — what the server knows is what is selected
-/

namespace LiveTuner

/-- The node that a message names as chosen, if it does. -/
def Outbound.choice? : Outbound → Option String
  | choose node => some node
  | update .. => none

/-- The nodes that messages name as chosen, in order. -/
def choices (messages : List Outbound) : List String := messages.filterMap Outbound.choice?

/-- The last node that messages name as chosen; before the first, that is no node. -/
def lastChoice (messages : List Outbound) : String := (choices messages).getLastD noNode

namespace Session

/-- The selected node, or the name that stands for none. -/
def selectionName (s : Session) : String := s.selected?.getD noNode

/-- A session on a connection whose messages are taken: nothing is loaded without being ready, and
the reserved name is not selected. -/
structure IsOpen (s : Session) : Prop where
  /-- Messages are taken into the outbox. -/
  outboxOpen : s.outboxOpen = true
  /-- Unless the definitions of a node are loaded, nothing is. -/
  isKept : s.IsKept
  /-- The reserved name is not selected. -/
  selected_ne : s.selected? ≠ some noNode

variable {s s' t : Session} {sent : List Outbound}

theorem isOpen_onConnected (h : s.outboxOpen = true) : s.onConnected.IsOpen where
  outboxOpen := h
  isKept _ := ⟨rfl, EditorTree.isBare_clear s.editors⟩
  selected_ne := by simp [onConnected, selected?, NodeState.node?]

/-- In an open session, the name of the selection tells what is selected. -/
theorem IsOpen.selected?_eq (h : s.IsOpen) :
    s.selected? = if s.selectionName = noNode then none else some s.selectionName := by
  rw [selectionName]
  cases hsel : s.selected? with
  | none => simp
  | some node =>
    have hne : node ≠ noNode := by
      rintro rfl
      exact h.selected_ne hsel
    simp [hne]

theorem mem_choices_iff {node : String} {messages : List Outbound} :
    node ∈ LiveTuner.choices messages ↔ .choose node ∈ messages := by
  rw [LiveTuner.choices, List.mem_filterMap]
  constructor
  · intro ⟨m, hm, hchoice⟩
    cases m with
    | choose node' => exact Option.some.inj hchoice ▸ hm
    | update id val => cases hchoice
  · intro h
    exact ⟨_, h, rfl⟩

theorem choices_append (ms ms' : List Outbound) : choices (ms ++ ms') = choices ms ++ choices ms' :=
  List.filterMap_append

/-! ### One incident -/

/-- An open session stays open, and its outbox grows by what is queued. -/
theorem Effect.isOpen (h : s.IsOpen) (heffect : s.Effect t sent) :
    (t.sendAll sent).IsOpen ∧ (t.sendAll sent).outbox = s.outbox ++ sent := by
  have hkept := heffect.isKept h.isKept
  rw [sendAll_eq] at hkept ⊢
  cases heffect with
  | reselects hreselects =>
    cases hreselects with
    | keeps available advertised =>
      exact ⟨⟨h.outboxOpen, hkept, h.selected_ne⟩, if_pos h.outboxOpen⟩
    | selects available advertised node hlisted hnode hnew =>
      refine ⟨⟨h.outboxOpen, hkept, ?_⟩, if_pos h.outboxOpen⟩
      simpa [selected?, NodeState.node?] using hnode
    | deselects available advertised hsel =>
      refine ⟨⟨h.outboxOpen, hkept, ?_⟩, if_pos h.outboxOpen⟩
      simp [selected?, NodeState.node?]
  | loads params hawaiting =>
    obtain ⟨node, hs, ht⟩ := load_state hawaiting params
    refine ⟨⟨h.outboxOpen, hkept, ?_⟩, if_pos h.outboxOpen⟩
    have hsel := h.selected_ne
    simpa [selected?, hs, ht, NodeState.node?] using hsel
  | revises | updates => exact ⟨⟨h.outboxOpen, hkept, h.selected_ne⟩, if_pos h.outboxOpen⟩

/-- Messages name a selection at most once, and then another than before. -/
theorem Effect.choices (h : s.IsOpen) (heffect : s.Effect t sent) :
    (LiveTuner.choices sent = [] ∧ (t.sendAll sent).selected? = s.selected?) ∨
    (LiveTuner.choices sent = [(t.sendAll sent).selectionName] ∧
      (t.sendAll sent).selectionName ≠ s.selectionName ∧ (t.sendAll sent).IsBlank) := by
  rw [sendAll_eq]
  cases heffect with
  | reselects hreselects =>
    cases hreselects with
    | keeps available advertised => exact Or.inl ⟨rfl, rfl⟩
    | selects available advertised node hlisted hnode hnew =>
      refine Or.inr ⟨rfl, ?_, ⟨rfl, EditorTree.isBare_clear s.editors⟩⟩
      change node ≠ s.selectionName
      rw [selectionName]
      cases hsel : s.selected? with
      | none => exact hnode
      | some present =>
        rintro rfl
        exact hnew hsel
    | deselects available advertised hsel =>
      refine Or.inr ⟨rfl, ?_, ⟨rfl, EditorTree.isBare_clear s.editors⟩⟩
      change noNode ≠ s.selectionName
      obtain ⟨present, hpresent⟩ := Option.ne_none_iff_exists'.mp hsel
      rw [selectionName, hpresent]
      rintro rfl
      exact h.selected_ne hpresent
  | loads params hawaiting =>
    obtain ⟨node, hs, ht⟩ := load_state hawaiting params
    exact Or.inl ⟨rfl, by simp [selected?, hs, ht, NodeState.node?]⟩
  | revises registry editors hready => exact Or.inl ⟨rfl, rfl⟩
  | updates registry editors id val hready => exact Or.inl ⟨rfl, rfl⟩

/-- With a message that names a node, everything loaded is dropped. -/
theorem Effect.isBlank_of_choose (h : s.IsOpen) (heffect : s.Effect t sent) {node : String}
    (hnode : .choose node ∈ sent) : (t.sendAll sent).IsBlank := by
  rcases heffect.choices h with ⟨hnone, -⟩ | ⟨-, -, hblank⟩
  · have hmem := mem_choices_iff.mpr hnode
    rw [hnone] at hmem
    exact absurd hmem List.not_mem_nil
  · exact hblank

/-- Without a message that names a node, the selection stays. -/
theorem Effect.selected?_eq (h : s.IsOpen) (heffect : s.Effect t sent)
    (hnot : ∀ node, .choose node ∉ sent) : (t.sendAll sent).selected? = s.selected? := by
  rcases heffect.choices h with ⟨-, hsel⟩ | ⟨hone, -⟩
  · exact hsel
  · have hmem : (t.sendAll sent).selectionName ∈ LiveTuner.choices sent := by
      rw [hone]
      exact List.mem_singleton_self _
    exact absurd (mem_choices_iff.mp hmem) (hnot _)

/-- A value is queued only by a session that is ready and stays so. -/
theorem Effect.isReady_of_update {id : ParamId} {val : Value} (heffect : s.Effect t sent)
    (h : .update id val ∈ sent) : s.isReady = true ∧ (t.sendAll sent).isReady = true := by
  cases heffect with
  | updates registry editors id' val' hready =>
    rw [sendAll_eq]
    exact ⟨hready, hready⟩
  | reselects hreselects =>
    cases hreselects with
    | keeps | selects | deselects => simp at h
  | loads | revises => simp at h

/-! ### Runs -/

theorem handleAll_cons {incident : Incident} {rest : List Incident} :
    s.handleAll (incident :: rest) = (s.handle incident).bind fun t => t.handleAll rest := rfl

/-- Over any run, what is queued leads step by step from the selection before to the one after. -/
theorem choices_of_handleAll {incidents : List Incident} (h : s.IsOpen)
    (hrun : s.handleAll incidents = some t) :
    t.IsOpen ∧ ∃ queued, t.outbox = s.outbox ++ queued ∧
      t.selectionName = (LiveTuner.choices queued).getLastD s.selectionName ∧
      (s.selectionName :: LiveTuner.choices queued).IsChain (· ≠ ·) := by
  induction incidents generalizing s with
  | nil =>
    obtain rfl : s = t := Option.some.inj hrun
    exact ⟨h, [], by simp, rfl, by simp [choices]⟩
  | cons incident rest ih =>
    rw [handleAll_cons] at hrun
    obtain ⟨u, hu, hrun⟩ := Option.bind_eq_some_iff.mp hrun
    obtain ⟨v, sent, heffect, rfl⟩ := effect_of_handle h.isKept hu
    obtain ⟨hopen, houtbox⟩ := heffect.isOpen h
    obtain ⟨ht, queued, hqueued, hname, hchain⟩ := ih hopen hrun
    refine ⟨ht, sent ++ queued, by rw [hqueued, houtbox, List.append_assoc], ?_⟩
    rw [choices_append]
    rcases heffect.choices h with ⟨hnone, hsel⟩ | ⟨hone, hnew, -⟩
    · -- Nothing is said about the selection, which stays.
      have hsame : (v.sendAll sent).selectionName = s.selectionName := by
        rw [selectionName, hsel, ← selectionName]
      rw [hsame] at hname hchain
      rw [hnone]
      exact ⟨hname, hchain⟩
    · -- The new selection is named, and stands between the old one and what follows.
      rw [hone]
      refine ⟨?_, List.isChain_cons_cons.mpr ⟨hnew.symm, hchain⟩⟩
      rw [hname, List.singleton_append, List.getLastD_cons]

/-- Selecting the selected node again, or listing it again, queues nothing and drops nothing. -/
theorem selectNode_selected {node : String} (h : s.IsOpen) (hnode : s.selected? = some node) :
    s.selectNode node = .ok (s, false) ∧
    ∀ payload names, Inbound.classify payload = .ok (.nodes names) → node ∈ names →
      s.handleFrame payload = some (s.listed names, []) := by
  have hconnected : s.state ≠ .disconnected := by
    intro hdis
    simp [selected?, hdis, NodeState.node?] at hnode
  have hreal : node ≠ noNode := by
    rintro rfl
    exact h.selected_ne hnode
  refine ⟨by simp [selectNode, hconnected, hreal, hnode], fun payload names hpayload hmem => ?_⟩
  have hlisted : (s.listed names).available.contains node = true := by simp [listed, hmem, hreal]
  have hnames : s.updateNodes names = (s.listed names, []) := by
    rw [updateNodes_of_selected hnode, if_pos hlisted]
  rw [handleFrame, if_neg hconnected, hpayload]
  exact congrArg some hnames

/-- What the server knows is what is selected. Over any run of an open connection, the last node
that was named is the selected one, the reserved name standing for none, and each differs from the
one named before. Whatever happens next, a message that names a node leaves nothing loaded, without
one the selection stays, and a value is queued only by a ready session. -/
theorem selected_eq_lastChoice (hopen : s.outboxOpen = true) {incidents : List Incident}
    (hrun : s.onConnected.handleAll incidents = some t) :
    (∃ queued, t.outbox = s.outbox ++ queued ∧
      t.selected? = (if lastChoice queued = noNode then none else some (lastChoice queued)) ∧
      (noNode :: LiveTuner.choices queued).IsChain (· ≠ ·)) ∧
    (∀ node, t.selected? = some node → t.selectNode node = .ok (t, false) ∧
      ∀ payload names, Inbound.classify payload = .ok (.nodes names) → node ∈ names →
        t.handleFrame payload = some (t.listed names, [])) ∧
    ∀ incident t', t.handle incident = some t' → ∃ new, t'.outbox = t.outbox ++ new ∧
      ((∃ node, .choose node ∈ new) → t'.IsBlank) ∧
      ((∀ node, .choose node ∉ new) → t'.selected? = t.selected?) ∧
      ∀ id val, .update id val ∈ new → t.isReady = true ∧ t'.isReady = true := by
  obtain ⟨ht, queued, houtbox, hname, hchain⟩ :=
    choices_of_handleAll (isOpen_onConnected hopen) hrun
  have hstart : s.onConnected.selectionName = noNode := rfl
  rw [hstart] at hname hchain
  refine ⟨⟨queued, houtbox, ?_, hchain⟩, fun node hnode => selectNode_selected ht hnode, ?_⟩
  · rw [lastChoice, ← hname]
    exact ht.selected?_eq
  · intro incident t' hincident
    obtain ⟨u, sent, heffect, rfl⟩ := effect_of_handle ht.isKept hincident
    refine ⟨sent, (heffect.isOpen ht).2, ?_, heffect.selected?_eq ht,
      fun id val => heffect.isReady_of_update⟩
    intro ⟨node, hnode⟩
    exact heffect.isBlank_of_choose ht hnode

/-! ### A run -/

/-- The server lists the nodes a and b. -/
def sampleNodes : List UInt8 :=
  [0x7b, 0x22, 0x61, 0x76, 0x61, 0x69, 0x6c, 0x61, 0x62, 0x6c, 0x65, 0x4e, 0x6f, 0x64, 0x65, 0x73,
    0x22, 0x3a, 0x5b, 0x22, 0x61, 0x22, 0x2c, 0x22, 0x62, 0x22, 0x5d, 0x7d]

/-- The node defines one parameter, a flag that is set. -/
def sampleDefinitions : List UInt8 :=
  [0x91, 0x83, 0xa2, 0x69, 0x64, 0x01, 0xa4, 0x6e, 0x61, 0x6d, 0x65, 0xa2, 0x6f, 0x6e,
    0xa3, 0x76, 0x61, 0x6c, 0xc3]

/-- The first node is picked, its flag is flipped, a frame is broken, and the other node is
selected. -/
def sampleIncidents : List Incident :=
  [.frame sampleNodes, .frame sampleDefinitions, .interact ⟨1⟩ .toggle, .frame [0xc1],
    .frame sampleNodes, .select "b"]

theorem selected?_after_sampleIncidents :
    (new none).outboxOpen = true ∧
    ∃ t, (new none).onConnected.handleAll sampleIncidents = some t ∧
      t.outbox = [.choose "a", .update ⟨1⟩ (.bool false), .choose "b"] ∧
      t.selected? = some "b" := by
  have hqueued : ((new none).onConnected.handleAll sampleIncidents).map (·.outbox) =
      some [.choose "a", .update ⟨1⟩ (.bool false), .choose "b"] := by decide +kernel
  obtain ⟨t, hrun, houtbox⟩ := Option.map_eq_some_iff.mp hqueued
  obtain ⟨⟨queued, hnew, hsel, -⟩, -⟩ := selected_eq_lastChoice (s := new none) rfl hrun
  have hall : queued = t.outbox := hnew.symm
  have hlast : lastChoice queued = "b" := by
    rw [hall, houtbox]
    rfl
  rw [hlast] at hsel
  exact ⟨rfl, t, hrun, houtbox, hsel⟩

end Session

end LiveTuner
