import LiveTuner.Session
import Mathlib.Tactic.SplitIfs

/-!
# What happens to a session

While a connection lasts, three things happen to a session: a frame comes in, the user selects a
node, the user edits a parameter. This file puts them under one type and says, function by function,
which parts of the session each may touch.

## Main definitions

* `Session.Incident` — a thing that happens
* `Session.handle`, `Session.handleAll` — the session after one and after several of them
* `Session.IsBlank`, `Session.IsKept` — nothing is loaded; and so it is unless the session is ready
* `Session.Outcome` — what handles an incident, and with what
* `Session.Reselects`, `Session.Effect` — everything that a selection, and that an incident, can do
  to a session, with the messages it queues

## Main results

* `Session.outcome_of_handle` — every incident has an outcome
* `Session.effect_of_handle` — and one of these effects
-/

namespace LiveTuner

namespace EditorTree

/-- There are no editors. -/
structure IsBare (t : EditorTree) : Prop where
  /-- No id has an editor. -/
  editors_eq : t.editors = ∅
  /-- No id has a group above it. -/
  parents_eq : t.parents = ∅
  /-- No id is topmost. -/
  roots_eq : t.roots = []

theorem isBare_clear (t : EditorTree) : t.clear.IsBare := ⟨rfl, rfl, rfl⟩

theorem IsBare.get?_eq {t : EditorTree} (h : t.IsBare) (id : ParamId) : t.get? id = none := by
  simp [get?, h.editors_eq]

end EditorTree

namespace Session

/-- A thing that happens to a session while its connection lasts. -/
inductive Incident where
  /-- A frame comes in. -/
  | frame (payload : List UInt8)
  /-- The user selects a node, or none by the reserved name. -/
  | select (node : String)
  /-- The user edits a parameter. -/
  | interact (id : ParamId) (interaction : Interaction)

/-- The session after an incident. What is refused changes nothing. -/
def handle (s : Session) : Incident → Walk Session
  | .frame payload => (s.handleFrame payload).map Prod.fst
  | .select node =>
    match s.selectNode node with
    | .ok (s, _) => some s
    | .error _ => some s
  | .interact id interaction =>
    (s.interact id interaction).map fun
      | .ok (s, _) => s
      | .error _ => s

/-- The session after incidents, one after the other. -/
def handleAll (s : Session) (incidents : List Incident) : Walk Session := incidents.foldlM handle s

/-- Nothing is loaded: there are neither definitions nor editors. -/
structure IsBlank (s : Session) : Prop where
  /-- There are no definitions. -/
  registry_eq : s.registry = .empty
  /-- There are no editors. -/
  isBare : s.editors.IsBare

/-- Unless the definitions of a node are loaded, nothing is. -/
def IsKept (s : Session) : Prop := s.isReady = false → s.IsBlank

/-- What a selection or a list of nodes comes to, before the messages in the list are put into the
outbox. -/
inductive Reselects (s : Session) : Session → List Outbound → Prop where
  /-- The selection stays, and so does all that came with it. -/
  | keeps (available : List String) (advertised : Bool) :
    Reselects s { s with available, advertised } []
  /-- A listed node is selected, other than the present one. -/
  | selects (available : List String) (advertised : Bool) (node : String)
    (hlisted : node ∈ available) (hnode : node ≠ noNode) (hnew : s.selected? ≠ some node) :
    Reselects s { s.reset with available, advertised, state := .awaiting node } [.choose node]
  /-- The selection is given up. -/
  | deselects (available : List String) (advertised : Bool) (h : s.selected? ≠ none) :
    Reselects s { s.reset with available, advertised, state := .noNode } [.choose noNode]

/-- What an incident comes to, before the messages in the list are put into the outbox. -/
inductive Effect (s : Session) : Session → List Outbound → Prop where
  /-- The selection may change; definitions and editors do not, unless they are dropped. -/
  | reselects {t : Session} {sent : List Outbound} (h : s.Reselects t sent) : Effect s t sent
  /-- The awaited definitions come. -/
  | loads (params : List Param) (h : s.isAwaiting = true) : Effect s (s.load params) []
  /-- Definitions and editors change where they are loaded. -/
  | revises (registry : Registry) (editors : EditorTree) (h : s.isReady = true) :
    Effect s { s with registry, editors } []
  /-- The user changes a value of the selected node. -/
  | updates (registry : Registry) (editors : EditorTree) (id : ParamId) (val : Value)
    (h : s.isReady = true) : Effect s { s with registry, editors } [.update id val]

/-- What handles an incident that comes to an end, and with what. -/
inductive Outcome (s : Session) : Incident → Session → Prop where
  /-- Nothing changes. -/
  | stays {incident : Incident} : Outcome s incident s
  /-- The server lists its nodes. -/
  | lists {payload : List UInt8} (hconnected : s.state ≠ .disconnected) (names : List String) :
    Outcome s (.frame payload) (s.updateNodes names).1
  /-- The awaited definitions come. -/
  | loads {payload : List UInt8} (hawaiting : s.isAwaiting = true)
    (definitions : List Definition) :
    Outcome s (.frame payload) (s.load (definitions.map Definition.resolveLeniently))
  /-- Other definitions come. -/
  | redefines {payload : List UInt8} {s' : Session} {problems : List Problem}
    (hready : s.isReady = true) (definitions : List Definition)
    (h : s.redefine (definitions.map Definition.resolveLeniently) = some (s', problems)) :
    Outcome s (.frame payload) s'
  /-- A value is pushed. -/
  | pushes {payload : List UInt8} {s' : Session} {problems : List Problem}
    (hready : s.isReady = true) (id : ParamId) (val : Value)
    (h : s.pushValue id val = some (s', problems)) : Outcome s (.frame payload) s'
  /-- The user selects a node, or none. -/
  | selects {s' : Session} {changed : Bool} (node : String)
    (h : s.selectNode node = .ok (s', changed)) : Outcome s (.select node) s'
  /-- The user edits a parameter. -/
  | edits {s' : Session} {val? : Option Value} (id : ParamId) (interaction : Interaction)
    (h : s.interact id interaction = some (.ok (s', val?))) :
    Outcome s (.interact id interaction) s'

/-- The session with messages put into the outbox, in order. -/
def sendAll (s : Session) (messages : List Outbound) : Session := messages.foldl send s

variable {s s' t : Session} {node : String} {id : ParamId} {val : Value} {sent : List Outbound}
  {problems : List Problem}

/-- Loading makes an awaiting session ready for the node it had selected. -/
theorem load_state (h : s.isAwaiting = true) (params : List Param) :
    ∃ node, s.state = .awaiting node ∧ (s.load params).state = .ready node := by
  rw [isAwaiting] at h
  split at h
  · next node hnode => exact ⟨node, hnode, by simp [load, hnode]⟩
  · cases h

theorem exists_state_of_isReady (h : s.isReady = true) : ∃ node, s.state = .ready node := by
  rw [isReady] at h
  split at h
  · next node hnode => exact ⟨node, hnode⟩
  · cases h

theorem connected_of_isReady (h : s.isReady = true) : s.state ≠ .disconnected := by
  obtain ⟨node, hnode⟩ := exists_state_of_isReady h
  simp [hnode]

theorem isAwaiting_of_isReady (h : s.isReady = true) : s.isAwaiting = false := by
  obtain ⟨node, hnode⟩ := exists_state_of_isReady h
  simp [isAwaiting, hnode]

/-- Putting a message into the outbox changes nothing else. -/
theorem send_eq (s : Session) (m : Outbound) :
    s.send m = { s with outbox := if s.outboxOpen then s.outbox ++ [m] else s.outbox } := by
  rw [send]
  split
  · rfl
  · rfl

/-- Putting messages into the outbox changes nothing else. -/
theorem sendAll_eq (s : Session) (messages : List Outbound) :
    s.sendAll messages =
      { s with outbox := if s.outboxOpen then s.outbox ++ messages else s.outbox } := by
  induction messages generalizing s with
  | nil =>
    rw [List.append_nil, ite_self]
    rfl
  | cons m rest ih =>
    change (s.send m).sendAll rest = _
    rw [ih, send_eq]
    split
    · simp [*]
    · simp [*]

/-! ### Selecting -/

theorem Effect.stays (s : Session) : s.Effect s [] := .reselects (.keeps s.available s.advertised)

/-- Selecting nothing changes nothing or gives the selection up. -/
theorem reselects_deselect (s : Session) :
    ∃ t sent, s.Reselects t sent ∧ s.deselect.1 = t.sendAll sent := by
  rw [deselect]
  cases h : s.selected? with
  | none => exact ⟨s, [], .keeps s.available s.advertised, rfl⟩
  | some node => exact ⟨_, _, .deselects s.available s.advertised (by simp [h]), rfl⟩

theorem reselects_selectNode {b : Bool} (h : s.selectNode node = .ok (s', b)) :
    ∃ t sent, s.Reselects t sent ∧ s' = t.sendAll sent := by
  rw [selectNode] at h
  split_ifs at h with hdis hnone hsame hlisted
  · obtain ⟨t, sent, hreselects, ht⟩ := reselects_deselect s
    exact ⟨t, sent, hreselects, by rw [← ht, Except.ok.inj h]⟩
  · refine ⟨s, [], .keeps s.available s.advertised, ?_⟩
    rw [(Prod.mk.inj (Except.ok.inj h)).1]
    rfl
  · refine ⟨_, _, .selects s.available s.advertised node (by simpa using hlisted) hnone hsame, ?_⟩
    rw [← (Prod.mk.inj (Except.ok.inj h)).1]
    rfl

/-- Only a listed node is picked. -/
theorem mem_available_of_pick? (h : s.pick? = some node) : node ∈ s.available := by
  have hpreferred : s.preferred.filter s.available.contains = some node → node ∈ s.available := by
    intro h
    simpa using (Option.filter_eq_some_iff.mp h).2
  rw [pick?] at h
  split_ifs at h
  · exact hpreferred h
  · rcases Option.or_eq_some_iff.mp h with h | ⟨-, h⟩
    · exact hpreferred h
    · exact List.mem_of_head? h

/-- The session once the server has listed its nodes, before one is picked. -/
def listed (s : Session) (names : List String) : Session :=
  { s with available := names.filter (· ≠ noNode), advertised := true }

/-- With nothing selected, picking a node selects a listed one or changes nothing. -/
theorem pickNode_eq (hadSelected : Bool) (h : s.state = .noNode)
    (havailable : noNode ∉ s.available) :
    (∃ node ∈ s.available, node ≠ noNode ∧
      (s.pickNode hadSelected).1 = { s.reset with state := .awaiting node }.send (.choose node)) ∨
    (s.pickNode hadSelected).1 = if hadSelected then s.send (.choose noNode) else s := by
  rw [pickNode]
  cases hpick : s.pick? with
  | none => exact Or.inr rfl
  | some node =>
    have hmem := mem_available_of_pick? hpick
    have hnode : node ≠ noNode := fun he => havailable (he ▸ hmem)
    have hselect : s.selectNode node =
        .ok ({ s.reset with state := .awaiting node }.send (.choose node), true) := by
      simp [selectNode, selected?, h, NodeState.node?, hnode, hmem]
    refine Or.inl ⟨node, hmem, hnode, ?_⟩
    simp only [hselect]

/-- A selected node stays selected if it is still listed; else another one is picked. -/
theorem updateNodes_of_selected (h : s.selected? = some node) (names : List String) :
    s.updateNodes names =
      if (s.listed names).available.contains node then (s.listed names, [])
      else pickNode { (s.listed names).reset with state := .noNode } true := by
  have hsel : (s.listed names).selected? = some node := h
  unfold listed at hsel
  rw [updateNodes, hsel]
  rfl

theorem updateNodes_of_none (h : s.selected? = none) (names : List String) :
    s.updateNodes names = pickNode (s.listed names) false := by
  have hsel : (s.listed names).selected? = none := h
  unfold listed at hsel
  rw [updateNodes, hsel]
  rfl

/-- With a connection but no selection there is one state left. -/
theorem state_of_selected?_eq_none (hs : s.state ≠ .disconnected) (h : s.selected? = none) :
    s.state = .noNode := by
  rw [selected?] at h
  cases hst : s.state with
  | disconnected => exact absurd hst hs
  | noNode => rfl
  | awaiting node => simp [hst, NodeState.node?] at h
  | ready node => simp [hst, NodeState.node?] at h

theorem reselects_updateNodes (hs : s.state ≠ .disconnected) (names : List String) :
    ∃ t sent, s.Reselects t sent ∧ (s.updateNodes names).1 = t.sendAll sent := by
  have hlisted : noNode ∉ (s.listed names).available := by simp [listed]
  cases hsel : s.selected? with
  | some node =>
    rw [updateNodes_of_selected hsel]
    split_ifs with hstill
    · exact ⟨_, _, .keeps (s.listed names).available true, rfl⟩
    · -- The selected node is gone: another one is selected, or the selection is given up.
      have hgone : node ∉ (s.listed names).available := by simpa using hstill
      rcases pickNode_eq (s := { (s.listed names).reset with state := .noNode }) true rfl hlisted
        with ⟨next, hmem, hnext, heq⟩ | heq
      · refine ⟨_, _, .selects (s.listed names).available true next hmem hnext ?_, heq⟩
        rw [hsel]
        rintro ⟨⟩
        exact hgone hmem
      · exact ⟨_, _, .deselects (s.listed names).available true (by simp [hsel]), heq⟩
  | none =>
    rw [updateNodes_of_none hsel]
    have hstate : (s.listed names).state = .noNode := state_of_selected?_eq_none hs hsel
    rcases pickNode_eq false hstate hlisted with ⟨next, hmem, hnext, heq⟩ | heq
    · exact ⟨_, _, .selects (s.listed names).available true next hmem hnext (by simp [hsel]), heq⟩
    · exact ⟨_, _, .keeps (s.listed names).available true, heq⟩

/-! ### Data -/

theorem eq_of_some_mk_eq {a b : Session} {problems problems' : List Problem}
    (h : some (a, problems) = some (b, problems')) : b = a :=
  (Prod.mk.inj (Option.some.inj h)).1.symm

theorem redefine_eq {params : List Param} (h : s.redefine params = some (s', problems)) :
    ∃ editors, s' = { s with registry := s.registry.flatten params, editors } := by
  obtain ⟨⟨editors, _⟩, -, h⟩ := Option.bind_eq_some_iff.mp h
  exact ⟨editors, eq_of_some_mk_eq h⟩

/-- A pushed value is taken by the editor of the id and, as far as it fits, by the definition; or by
the definition alone, if there is no editor; or it is reported and changes nothing. -/
theorem pushValue_cases (h : s.pushValue id val = some (s', problems)) :
    (∃ editors, s.editors.bindValue id val = some (.ok editors) ∧ problems = [] ∧
      s' = { s with editors, registry := (s.registry.setValue? id val).getD s.registry }) ∨
    (∃ registry, s.editors.get? id = none ∧ s.registry.setValue? id val = some registry ∧
      problems = [] ∧ s' = { s with registry }) ∨
    problems ≠ [] ∧ s' = s := by
  rw [pushValue] at h
  split_ifs at h with hlive
  · obtain ⟨result, hresult, h⟩ := Option.bind_eq_some_iff.mp h
    cases result with
    | ok editors =>
      obtain ⟨rfl, rfl⟩ := Prod.mk.inj (Option.some.inj h)
      exact Or.inl ⟨editors, hresult, rfl, rfl⟩
    | error problem =>
      obtain ⟨rfl, rfl⟩ := Prod.mk.inj (Option.some.inj h)
      exact Or.inr (Or.inr ⟨List.cons_ne_nil _ _, rfl⟩)
  · have hnone : s.editors.get? id = none := by
      simpa [EditorTree.contains, EditorTree.get?] using hlive
    split at h
    · obtain ⟨rfl, rfl⟩ := Prod.mk.inj (Option.some.inj h)
      exact Or.inr (Or.inr ⟨List.cons_ne_nil _ _, rfl⟩)
    · split at h
      · next registry hset =>
        obtain ⟨rfl, rfl⟩ := Prod.mk.inj (Option.some.inj h)
        exact Or.inr (Or.inl ⟨registry, hnone, hset, rfl, rfl⟩)
      · obtain ⟨rfl, rfl⟩ := Prod.mk.inj (Option.some.inj h)
        exact Or.inr (Or.inr ⟨List.cons_ne_nil _ _, rfl⟩)

/-- A value push comes to an end once the editors have answered. -/
theorem exists_pushValue_of_bindValue {result : Except Problem EditorTree}
    (h : s.editors.bindValue id val = some result) :
    ∃ s' problems, s.pushValue id val = some (s', problems) := by
  rw [pushValue]
  split_ifs
  · cases result with
    | ok editors => exact ⟨_, _, by simp only [h]; rfl⟩
    | error problem => exact ⟨s, [problem], by simp [h]⟩
  · -- Without an editor only the registry is asked.
    split
    · exact ⟨_, _, rfl⟩
    · split <;> exact ⟨_, _, rfl⟩

theorem pushValue_eq (h : s.pushValue id val = some (s', problems)) :
    ∃ registry editors, s' = { s with registry, editors } := by
  rcases pushValue_cases h with ⟨editors, -, -, rfl⟩ | ⟨registry, -, -, -, rfl⟩ | ⟨-, rfl⟩
  · exact ⟨_, editors, rfl⟩
  · exact ⟨registry, s.editors, rfl⟩
  · exact ⟨s'.registry, s'.editors, rfl⟩

theorem outcome_of_handleMessage {message : Inbound} {payload : List UInt8}
    (hs : s.state ≠ .disconnected) (h : s.handleMessage message = some (s', problems)) :
    s.Outcome (.frame payload) s' := by
  have hstay : s' = s → s.Outcome (.frame payload) s' := by
    rintro rfl
    exact .stays
  cases message with
  | nodes names =>
    have heq : (s.updateNodes names).1 = s' := by rw [Option.some.inj h]
    exact heq ▸ .lists hs names
  | unrecognized _ => exact hstay (eq_of_some_mk_eq h)
  | definitions definitions rejected =>
    rw [handleMessage] at h
    split_ifs at h with hload hready
    · rw [Bool.and_eq_true] at hload
      exact eq_of_some_mk_eq h ▸ .loads hload.1 _
    · obtain ⟨⟨u, _⟩, hu, h⟩ := Option.bind_eq_some_iff.mp h
      exact eq_of_some_mk_eq h ▸ .redefines hready _ hu
    · exact hstay (eq_of_some_mk_eq h)
  | push id val =>
    rw [handleMessage] at h
    split_ifs at h with hready
    · exact .pushes hready id val h
    · exact hstay (eq_of_some_mk_eq h)
  | other _ => exact hstay (eq_of_some_mk_eq h)

/-! ### Any incident -/

/-- Without editors no interaction is taken. -/
theorem interact_of_isBlank (h : s.IsBlank) (interaction : Interaction) :
    ∃ problem, s.interact id interaction = some (.error problem) := by
  rw [interact]
  split_ifs
  · exact ⟨_, rfl⟩
  · rw [EditorTree.interact, h.isBare.get?_eq]
    exact ⟨_, rfl⟩

/-- An edit changes the editors and, if a value comes of it, the definition and the outbox. -/
theorem interact_eq_ok {interaction : Interaction} {val? : Option Value}
    (h : s.interact id interaction = some (.ok (s', val?))) :
    ∃ editors, s.editors.interact id interaction = some (.ok (editors, val?)) ∧
      ((val? = none ∧ s' = { s with editors }) ∨
        ∃ val, val? = some val ∧ s' = ({ s with
          editors, registry := (s.registry.setValue? id val).getD s.registry } : Session).send
            (.update id val)) := by
  rw [interact] at h
  split_ifs at h with hdis
  · exact absurd h (by simp [pure])
  · obtain ⟨result, hresult, h⟩ := Option.bind_eq_some_iff.mp h
    rcases result with problem | ⟨editors, _ | val⟩
    · exact absurd h (by simp [pure])
    · obtain ⟨rfl, rfl⟩ := Prod.mk.inj (Except.ok.inj (Option.some.inj h))
      exact ⟨editors, hresult, Or.inl ⟨rfl, rfl⟩⟩
    · obtain ⟨rfl, rfl⟩ := Prod.mk.inj (Except.ok.inj (Option.some.inj h))
      exact ⟨editors, hresult, Or.inr ⟨val, rfl, rfl⟩⟩

/-- Every incident that comes to an end has an outcome; what is refused changes nothing. -/
theorem outcome_of_handle {incident : Incident} (h : s.handle incident = some s') :
    s.Outcome incident s' := by
  cases incident with
  | frame payload =>
    obtain ⟨⟨u, problems⟩, hu, rfl⟩ := Option.map_eq_some_iff.mp h
    rw [handleFrame] at hu
    split_ifs at hu with hdis
    · exact eq_of_some_mk_eq hu ▸ .stays
    · split at hu
      · exact outcome_of_handleMessage hdis hu
      · exact eq_of_some_mk_eq hu ▸ .stays
  | select node =>
    rw [handle] at h
    split at h
    · next u changed hu => exact Option.some.inj h ▸ .selects node hu
    · exact Option.some.inj h ▸ .stays
  | interact id interaction =>
    obtain ⟨result, hresult, rfl⟩ := Option.map_eq_some_iff.mp h
    rcases result with problem | ⟨u, val?⟩
    · exact .stays
    · exact .edits id interaction hresult

theorem effect_interact {interaction : Interaction} {val? : Option Value} (hs : s.IsKept)
    (h : s.interact id interaction = some (.ok (s', val?))) :
    ∃ t sent, s.Effect t sent ∧ s' = t.sendAll sent := by
  -- An editor took the interaction, so definitions are loaded.
  have hready : s.isReady = true := by
    cases hr : s.isReady with
    | true => rfl
    | false =>
      obtain ⟨problem, hproblem⟩ := interact_of_isBlank (hs hr) interaction
      rw [hproblem] at h
      cases h
  obtain ⟨editors, -, ⟨-, rfl⟩ | ⟨val, -, rfl⟩⟩ := interact_eq_ok h
  · exact ⟨_, _, .revises s.registry editors hready, rfl⟩
  · exact ⟨_, _, .updates _ editors id val hready, rfl⟩

/-- Whatever happens to a session while its connection lasts is one of the listed effects. -/
theorem effect_of_handle {incident : Incident} (hs : s.IsKept)
    (h : s.handle incident = some s') : ∃ t sent, s.Effect t sent ∧ s' = t.sendAll sent := by
  cases outcome_of_handle h with
  | stays => exact ⟨s, [], .stays s, rfl⟩
  | lists hconnected names =>
    obtain ⟨t, sent, hreselects, ht⟩ := reselects_updateNodes hconnected names
    exact ⟨t, sent, .reselects hreselects, ht⟩
  | loads hawaiting definitions => exact ⟨_, _, .loads _ hawaiting, rfl⟩
  | redefines hready definitions hredefine =>
    obtain ⟨editors, rfl⟩ := redefine_eq hredefine
    exact ⟨_, _, .revises _ editors hready, rfl⟩
  | pushes hready id val hpush =>
    obtain ⟨registry, editors, rfl⟩ := pushValue_eq hpush
    exact ⟨_, _, .revises registry editors hready, rfl⟩
  | selects node hselect =>
    obtain ⟨t, sent, hreselects, ht⟩ := reselects_selectNode hselect
    exact ⟨t, sent, .reselects hreselects, ht⟩
  | edits id interaction hinteract => exact effect_interact hs hinteract

/-- Nothing is loaded into a session that is not ready. -/
theorem Effect.isKept (h : s.IsKept) (heffect : s.Effect t sent) : (t.sendAll sent).IsKept := by
  rw [sendAll_eq]
  intro hready
  cases heffect with
  | reselects hreselects =>
    cases hreselects with
    | keeps available advertised => exact ⟨(h hready).registry_eq, (h hready).isBare⟩
    | selects | deselects => exact ⟨rfl, EditorTree.isBare_clear s.editors⟩
  | loads params hawaiting =>
    obtain ⟨node, -, ht⟩ := load_state hawaiting params
    simp [isReady, ht] at hready
  | revises registry editors hready' => exact absurd (hready'.symm.trans hready) (by simp)
  | updates registry editors id val hready' => exact absurd (hready'.symm.trans hready) (by simp)

end Session

end LiveTuner
