import LiveTuner.Client.SetValue
import LiveTuner.Proofs.Client.Run
import LiveTuner.Proofs.Session.Pinned

/-!
# Setting one value at one node

A run that sets one value on a session pinned to a node goes through few phases, whatever the server
sends and in whatever order events and writes are taken up. It waits for the server to list the
node, chooses it, and waits for its definitions. As soon as they have come, it attempts the edit and
ends; it also ends when the node is not listed, and then no node stays chosen.

So the messages that it queues are known, and the update is among them exactly if the attempt was
a success.

## Main definitions

* `Branch.Lists` — a frame in which the server lists a node
* `Run.IsWaiting`, `Run.IsChoosing` — the phases of a run that goes on
* `Run.Sets` — all that a run can have come to

## Main results

* `Session.handleFrame_of_not_isReady` — what a frame does before the definitions are there
* `Run.Sets.step` — every step leads from one phase to another
* `Run.sets_of_underway` — what such a run writes, and what it returns
-/

namespace LiveTuner

namespace Session

variable {s s' : Session} {id : ParamId}

/-- Before the definitions are there, a frame is reported only, lists the nodes, or brings the
definitions. -/
theorem handleFrame_of_not_isReady (hconnected : s.state ≠ .disconnected)
    (hready : s.isReady = false) (payload : List UInt8) :
    ∃ s' problems, s.handleFrame payload = some (s', problems) ∧
      (s' = s ∨
        (∃ names, Inbound.classify payload = .ok (.nodes names) ∧ s' = (s.updateNodes names).1) ∨
        s.isAwaiting = true ∧ ∃ params, s' = s.load params) := by
  rw [handleFrame, if_neg hconnected]
  cases hmessage : Inbound.classify payload with
  | error fault => exact ⟨s, _, rfl, Or.inl rfl⟩
  | ok message =>
    cases message with
    | nodes names => exact ⟨_, _, rfl, Or.inr (Or.inl ⟨names, rfl, rfl⟩)⟩
    | unrecognized record => exact ⟨s, _, rfl, Or.inl rfl⟩
    | other v => exact ⟨s, _, rfl, Or.inl rfl⟩
    | push id val =>
      dsimp only
      rw [handleMessage, hready]
      exact ⟨s, _, rfl, Or.inl rfl⟩
    | definitions definitions rejected =>
      dsimp only
      rw [handleMessage, hready]
      by_cases hawaits : (s.isAwaiting && s.registry.isEmpty) = true
      · rw [if_pos hawaits]
        rw [Bool.and_eq_true] at hawaits
        exact ⟨_, _, rfl, Or.inr (Or.inr ⟨hawaits.1, _, rfl⟩)⟩
      · rw [if_neg hawaits]
        exact ⟨s, _, rfl, Or.inl rfl⟩

/-- The value that an edit returns is the value that it puts into the outbox. -/
theorem outbox_interact {interaction : Interaction} {sent : Option Value}
    (hopen : s.outboxOpen = true) (h : s.interact id interaction = some (.ok (s', sent))) :
    s'.outbox = s.outbox ++ (sent.map (Outbound.update id)).toList := by
  rw [interact] at h
  split_ifs at h
  · cases h
  · obtain ⟨result, -, h⟩ := Option.bind_eq_some_iff.mp h
    rcases result with problem | ⟨editors, _ | val⟩
    · cases h
    · obtain ⟨rfl, rfl⟩ := Prod.mk.inj (Except.ok.inj (Option.some.inj h))
      exact (List.append_nil _).symm
    · obtain ⟨rfl, rfl⟩ := Prod.mk.inj (Except.ok.inj (Option.some.inj h))
      rw [send, if_pos hopen]
      rfl

end Session

/-- The branch is a frame in which the server lists the node. -/
def Branch.Lists (node : String) : Branch → Prop
  | .event (.frame payload) =>
    ∃ names, Inbound.classify payload = .ok (.nodes names) ∧ node ∈ names
  | _ => False

namespace Run

variable {node : String} {id : ParamId} {val v : Value} {r r' : Run Attempt}
  {taken : List Branch} {branch : Branch} {state : NodeState} {queued : List Outbound}

/-- The run goes on: nothing has been attempted, and the node is not missing. -/
structure IsAt (r : Run Attempt) (node : String) (state : NodeState) (queue : List Outbound) :
    Prop where
  /-- The run has not ended. -/
  exit_eq : r.exit = none
  /-- Nothing has been attempted. -/
  memory_eq : r.memory = none
  /-- The session picks no other node. -/
  isPinned : r.session.IsPinnedTo node
  /-- The node is listed, or nothing is. -/
  missing_eq : r.session.missingPinned? = none
  /-- What is selected. -/
  state_eq : r.session.state = state
  /-- What has been put into the outbox. -/
  queue_eq : r.queue = queue

/-- All that a run which sets a value can have come to. -/
inductive Sets (node : String) (id : ParamId) (taken : List Branch) (r : Run Attempt) : Prop where
  /-- It waits for the node to be listed. -/
  | waits (h : r.IsAt node .noNode [])
  /-- It has chosen the node and waits for the definitions. -/
  | chooses (hlisted : ∃ b ∈ taken, b.Lists node)
    (h : r.IsAt node (.awaiting node) [.choose node])
  /-- It has ended without an update. -/
  | fails (hexit : r.exit.isSome = true) (hmemory : ∀ v, r.memory ≠ some (.ok (some v)))
    (hlisted : r.queue ≠ [] → ∃ b ∈ taken, b.Lists node)
    (hqueue : r.queue <+: [.choose node, .choose noNode])
  /-- It has ended with an update. -/
  | succeeds (v : Value) (hexit : r.exit = some .shutdown)
    (hmemory : r.memory = some (.ok (some v))) (hlisted : ∃ b ∈ taken, b.Lists node)
    (hqueue : r.queue = [.choose node, .update id v])

/-- A run that ends with the node chosen, and without an update, has failed. -/
theorem Sets.of_queue_eq (hexit : r.exit.isSome = true)
    (hmemory : ∀ v, r.memory ≠ some (.ok (some v))) (hlisted : ∃ b ∈ taken, b.Lists node)
    (hqueue : r.queue = [.choose node]) : r.Sets node id taken := by
  apply Sets.fails hexit hmemory (fun _ => hlisted)
  rw [hqueue]
  exact ⟨[.choose noNode], rfl⟩

/-! ### The observer -/

theorem consult_of_missing {problem : Problem}
    (h : r.session.missingPinned? = some problem) :
    consult (.setting id val) r =
      some { r with memory := some (.error problem), exit := some .shutdown } := by
  simp only [consult, Observer.setting, attemptSet, h]
  rfl

theorem consult_of_not_isReady (h : r.session.missingPinned? = none)
    (hready : r.session.isReady = false) : consult (.setting id val) r = some r := by
  simp only [consult, Observer.setting, attemptSet, h, hready]
  rfl

/-- Once the definitions are there, the edit is attempted, and the run ends. -/
theorem consult_of_isReady (h : r.session.missingPinned? = none)
    (hready : r.session.isReady = true) :
    consult (.setting id val) r = (r.session.interact id (.setValue val)).map fun
      | .ok (session, sent) =>
        { r with session, memory := some (.ok sent), exit := some .shutdown }
      | .error problem => { r with memory := some (.error problem), exit := some .shutdown } := by
  simp only [consult, Observer.setting, attemptSet, h, hready]
  rcases r.session.interact id (.setValue val) with _ | (problem | ⟨session, sent⟩)
  · rfl
  · rfl
  · rfl

/-- The attempt puts the value that it returns into the outbox, or nothing. -/
theorem sets_of_isReady (h : r.session.missingPinned? = none) (hready : r.session.isReady = true)
    (hopen : r.session.outboxOpen = true) (hlisted : ∃ b ∈ taken, b.Lists node)
    (hqueue : r.queue = [.choose node])
    (hconsult : consult (.setting id val) r = some r') : r'.Sets node id taken := by
  rw [consult_of_isReady h hready] at hconsult
  obtain ⟨result, hinteract, rfl⟩ := Option.map_eq_some_iff.mp hconsult
  rcases result with problem | ⟨s, sent⟩
  · exact .of_queue_eq rfl (by simp) hlisted hqueue
  · have hqueue' : r.messages ++ s.outbox =
        [.choose node] ++ (sent.map (Outbound.update id)).toList := by
      rw [Session.outbox_interact hopen hinteract, ← List.append_assoc, ← hqueue, queue]
    cases sent with
    | none => exact .of_queue_eq rfl (by simp) hlisted hqueue'
    | some v => exact .succeeds v rfl rfl hlisted hqueue'

/-- Once the nodes are listed, the run goes on with the node chosen, or ends because the node is
missing. -/
theorem sets_of_advertised (hexit : r.exit = none) (hmemory : r.memory = none)
    (hpinned : r.session.IsPinnedTo node) (hadvertised : r.session.advertised = true)
    (hpicks :
      node ∈ r.session.available ∧ r.session.state = .awaiting node ∧ r.queue = [.choose node] ∧
          (∃ b ∈ taken, b.Lists node) ∨
        node ∉ r.session.available ∧ r.queue <+: [.choose node, .choose noNode] ∧
          (r.queue ≠ [] → ∃ b ∈ taken, b.Lists node))
    (hconsult : consult (.setting id val) r = some r') : r'.Sets node id taken := by
  have hmissing := hpinned.missingPinned?_eq hadvertised
  rcases hpicks with ⟨hmem, hstate, hqueue, hlisted⟩ | ⟨hmem, hqueue, hlisted⟩
  · rw [if_pos hmem] at hmissing
    rw [consult_of_not_isReady hmissing (by rw [Session.isReady, hstate])] at hconsult
    obtain rfl := Option.some.inj hconsult
    exact .chooses hlisted ⟨hexit, hmemory, hpinned, hmissing, hstate, hqueue⟩
  · rw [if_neg hmem] at hmissing
    rw [consult_of_missing hmissing] at hconsult
    obtain rfl := Option.some.inj hconsult
    exact .fails rfl (by simp) hlisted hqueue

/-! ### Steps -/

theorem step_frame {payload : List UInt8} {s' : Session} {problems : List Problem}
    (hexit : r.exit = none) (hframe : r.session.handleFrame payload = some (s', problems)) :
    r.step (.setting id val) (.event (.frame payload)) =
      consult (.setting id val) { r with session := s' } := by
  rw [step, hexit, hframe]
  rfl

/-- While nothing is selected, a frame changes nothing, or lists nodes. If the node is among them,
it is chosen; else the run ends. -/
theorem IsAt.step_frame_of_noNode {payload : List UInt8} (h : r.IsAt node .noNode [])
    (hstep : r.step (.setting id val) (.event (.frame payload)) = some r') :
    r'.Sets node id (taken ++ [.event (.frame payload)]) := by
  have hready : r.session.isReady = false := by rw [Session.isReady, h.state_eq]
  have hawaiting : r.session.isAwaiting = false := by rw [Session.isAwaiting, h.state_eq]
  obtain ⟨s', problems, hframe, hcases⟩ := Session.handleFrame_of_not_isReady
    (by simp [h.state_eq]) hready payload
  rw [step_frame h.exit_eq hframe] at hstep
  rcases hcases with rfl | ⟨names, hmessage, rfl⟩ | ⟨hloads, -⟩
  · -- The frame is only reported.
    rw [consult_of_not_isReady h.missing_eq hready] at hstep
    exact .waits (Option.some.inj hstep ▸ h)
  · obtain ⟨t, ht, hpinned, hadvertised, hpicks⟩ :=
      h.isPinned.updateNodes_of_noNode h.state_eq names
    rw [ht] at hstep
    refine sets_of_advertised (r := { r with session := t }) h.exit_eq h.memory_eq hpinned
      hadvertised ?_ hstep
    rcases hpicks with ⟨hmem, hnamed, hstate, houtbox⟩ | ⟨hmem, houtbox⟩
    · have hqueue : r.messages ++ t.outbox = [.choose node] := by
        rw [houtbox, ← List.append_assoc, ← queue, h.queue_eq]
        rfl
      exact Or.inl ⟨hmem, hstate, hqueue,
        _, List.mem_append_right _ List.mem_cons_self, names, hmessage, hnamed⟩
    · have hqueue : r.messages ++ t.outbox = [] := by rw [houtbox, ← queue, h.queue_eq]
      exact Or.inr ⟨hmem, hqueue ▸ List.nil_prefix, fun hne => absurd hqueue hne⟩
  · -- With nothing chosen, no definitions are awaited.
    exact absurd (hawaiting.symm.trans hloads) Bool.false_ne_true

/-- While the node is chosen, a frame changes nothing that matters, or lists nodes, or brings the
definitions. The run ends if the node is not listed any more, and once there are definitions. -/
theorem IsAt.step_frame_of_awaiting {payload : List UInt8} (hlisted : ∃ b ∈ taken, b.Lists node)
    (h : r.IsAt node (.awaiting node) [.choose node])
    (hstep : r.step (.setting id val) (.event (.frame payload)) = some r') :
    r'.Sets node id (taken ++ [.event (.frame payload)]) := by
  have hready : r.session.isReady = false := by rw [Session.isReady, h.state_eq]
  have hlisted' : ∃ b ∈ taken ++ [.event (.frame payload)], b.Lists node := by
    obtain ⟨b, hb, hlists⟩ := hlisted
    exact ⟨b, List.mem_append_left _ hb, hlists⟩
  obtain ⟨s', problems, hframe, hcases⟩ := Session.handleFrame_of_not_isReady
    (by simp [h.state_eq]) hready payload
  rw [step_frame h.exit_eq hframe] at hstep
  rcases hcases with rfl | ⟨names, hmessage, rfl⟩ | ⟨hawaiting, params, rfl⟩
  · rw [consult_of_not_isReady h.missing_eq hready] at hstep
    exact .chooses hlisted' (Option.some.inj hstep ▸ h)
  · obtain ⟨t, ht, hpinned, hadvertised, hpicks⟩ :=
      h.isPinned.updateNodes_of_awaiting h.state_eq names
    rw [ht] at hstep
    refine sets_of_advertised (r := { r with session := t }) h.exit_eq h.memory_eq hpinned
      hadvertised ?_ hstep
    rcases hpicks with ⟨hmem, hstate, houtbox⟩ | ⟨hmem, houtbox⟩
    · have hqueue : r.messages ++ t.outbox = [.choose node] := by
        rw [houtbox, ← queue, h.queue_eq]
      exact Or.inl ⟨hmem, hstate, hqueue, hlisted'⟩
    · have hqueue : r.messages ++ t.outbox = [.choose node, .choose noNode] := by
        rw [houtbox, ← List.append_assoc, ← queue, h.queue_eq]
        rfl
      exact Or.inr ⟨hmem, hqueue ▸ List.prefix_refl _, fun _ => hlisted'⟩
  · -- The definitions have come, so the edit is attempted at once.
    have hloaded : (r.session.load params).isReady = true := by
      rw [Session.isReady, Session.load, h.state_eq]
    exact sets_of_isReady (r := { r with session := r.session.load params }) h.missing_eq hloaded
      h.isPinned.outboxOpen_eq hlisted' h.queue_eq hstep

/-- Pings and writes change neither the phase of a run nor what it has queued. -/
theorem IsAt.congr (h : r.IsAt node state queued) (hexit : r'.exit = r.exit)
    (hmemory : r'.memory = r.memory) (hqueue : r'.queue = r.queue)
    (hsession : ∃ outbox, r'.session = { r.session with outbox }) : r'.IsAt node state queued := by
  obtain ⟨outbox, hsession⟩ := hsession
  refine ⟨hexit.trans h.exit_eq, hmemory.trans h.memory_eq, ?_, ?_, ?_, hqueue.trans h.queue_eq⟩
  · rw [hsession]
    exact ⟨h.isPinned.preferred_eq, h.isPinned.pinned_eq, h.isPinned.outboxOpen_eq⟩
  · rw [hsession]
    exact h.missing_eq
  · rw [hsession]
    exact h.state_eq

/-- Whatever is no frame and no command leaves the run in its phase, or ends it. -/
theorem IsAt.step_other (h : r.IsAt node state queued)
    (hframe : ∀ payload, branch ≠ .event (.frame payload)) (hcommand : ∀ c, branch ≠ .command c)
    (hstep : r.step (.setting id val) branch = some r') :
    r'.IsAt node state queued ∨
      r'.exit = some .disconnected ∧ r'.memory = none ∧ r'.queue = queued := by
  rw [step.eq_def, h.exit_eq] at hstep
  match branch with
  | .event (.frame payload) => exact absurd rfl (hframe payload)
  | .command c => exact absurd rfl (hcommand c)
  | .event .ended =>
    obtain rfl := Option.some.inj hstep
    exact Or.inr ⟨rfl, h.memory_eq, h.queue_eq⟩
  | .event (.ping payload) =>
    obtain rfl := Option.some.inj hstep
    have hqueue := queue_pong r payload
    rw [h.exit_eq] at hqueue
    exact Or.inl (h.congr h.exit_eq.symm rfl hqueue ⟨_, rfl⟩)
  | .write =>
    -- A write may find the outbox empty.
    obtain rfl := Option.some.inj hstep
    refine Or.inl (h.congr ?_ ?_ (queue_writeOne r) ?_)
    all_goals rw [writeOne]; split
    · rfl
    · rfl
    · rfl
    · rfl
    · exact ⟨_, rfl⟩
    · exact ⟨_, rfl⟩

/-- Every step leads from one phase to another. -/
theorem Sets.step (h : r.Sets node id taken) (hcommand : ∀ c, branch ≠ .command c)
    (hstep : r.step (.setting id val) branch = some r') :
    r'.Sets node id (taken ++ [branch]) := by
  have hmono : (∃ b ∈ taken, b.Lists node) → ∃ b ∈ taken ++ [branch], b.Lists node := by
    rintro ⟨b, hb, hlists⟩
    exact ⟨b, List.mem_append_left _ hb, hlists⟩
  have hstays : r.exit.isSome = true → r = r' := by
    intro hexit
    rw [Run.step.eq_def, if_pos hexit] at hstep
    exact Option.some.inj hstep
  -- A run that has ended stays as it is; else the phase and the kind of branch decide.
  cases h with
  | fails hexit hmemory hlisted hqueue =>
    obtain rfl := hstays hexit
    exact .fails hexit hmemory (fun hne => hmono (hlisted hne)) hqueue
  | succeeds v hexit hmemory hlisted hqueue =>
    obtain rfl := hstays (by rw [hexit]; rfl)
    exact .succeeds v hexit hmemory (hmono hlisted) hqueue
  | waits h =>
    by_cases hframe : ∃ payload, branch = .event (.frame payload)
    · obtain ⟨payload, rfl⟩ := hframe
      exact h.step_frame_of_noNode hstep
    · rw [not_exists] at hframe
      rcases h.step_other hframe hcommand hstep with h' | ⟨hexit, hmemory, hqueue⟩
      · exact .waits h'
      · exact .fails (by rw [hexit]; rfl) (by simp [hmemory])
          (fun hne => absurd hqueue hne) (hqueue ▸ List.nil_prefix)
  | chooses hlisted h =>
    by_cases hframe : ∃ payload, branch = .event (.frame payload)
    · obtain ⟨payload, rfl⟩ := hframe
      exact h.step_frame_of_awaiting hlisted hstep
    · rw [not_exists] at hframe
      rcases h.step_other hframe hcommand hstep with h' | ⟨hexit, hmemory, hqueue⟩
      · exact .chooses (hmono hlisted) h'
      · exact .of_queue_eq (by rw [hexit]; rfl) (by simp [hmemory]) (hmono hlisted)
          hqueue

/-! ### Runs -/

theorem exists_start (node : String) (id : ParamId) (val : Value) :
    ∃ r, start (.setting id val) none (.pinnedTo node) = some r ∧ r.Sets node id [] := by
  have hmissing : (Session.pinnedTo node).onConnected.missingPinned? = none := rfl
  rw [start, consult_of_not_isReady hmissing rfl]
  exact ⟨_, rfl, .waits ⟨rfl, rfl, ⟨rfl, rfl, rfl⟩, hmissing, rfl, rfl⟩⟩

/-- Whatever the server sends, and in whatever order events and writes are taken up, a run that sets
a value has come to one of its phases. -/
theorem sets_of_underway {branches : List Branch} (hcommand : ∀ c, Branch.command c ∉ branches)
    (hrun : underway (.setting id val) none (.pinnedTo node) branches = some r) :
    r.Sets node id branches := by
  apply underway_induction _ _ hrun
  · intro r hstart
    obtain ⟨r₀, hr₀, h⟩ := exists_start node id val
    cases hr₀.symm.trans hstart
    exact h
  · intro taken branch r r' hbranch h hstep
    exact h.step (fun c heq => hcommand c (heq ▸ hbranch)) hstep

theorem sentValue_eq_ok_iff {attempt : Attempt} {exit : Exit} :
    sentValue id attempt exit = .ok v ↔ attempt = some (.ok (some v)) := by
  rcases attempt with _ | (problem | (_ | w)) <;> simp [sentValue]

/-- An attempt came to a value exactly if the update with it was put into the outbox. -/
theorem Sets.memory_eq_iff (h : r.Sets node id taken) :
    r.memory = some (.ok (some v)) ↔ .update id v ∈ r.queue := by
  cases h with
  | waits h => simp [h.memory_eq, h.queue_eq]
  | chooses hlisted h => simp [h.memory_eq, h.queue_eq]
  | fails hexit hmemory hlisted hqueue =>
    have hnone : .update id v ∉ r.queue := fun hmem => by simpa using hqueue.subset hmem
    exact iff_of_false (hmemory v) hnone
  | succeeds w hexit hmemory hlisted hqueue => simp [hmemory, hqueue, eq_comm]

/-- The messages are those of one of three runs, cut short somewhere. -/
theorem Sets.queue_prefix (h : r.Sets node id taken) :
    r.queue <+: [.choose node, .choose noNode] ∨ ∃ v, r.queue <+: [.choose node, .update id v] := by
  cases h with
  | waits h => exact Or.inl (h.queue_eq ▸ List.nil_prefix)
  | chooses hlisted h => exact Or.inl (h.queue_eq ▸ ⟨[.choose noNode], rfl⟩)
  | fails hexit hmemory hlisted hqueue => exact Or.inl hqueue
  | succeeds v hexit hmemory hlisted hqueue => exact Or.inr ⟨v, hqueue ▸ List.prefix_refl _⟩

theorem Sets.exists_lists (h : r.Sets node id taken) (hne : r.queue ≠ []) :
    ∃ b ∈ taken, b.Lists node := by
  cases h with
  | waits h => exact absurd h.queue_eq hne
  | chooses hlisted h => exact hlisted
  | fails hexit hmemory hlisted hqueue => exact hlisted hne
  | succeeds v hexit hmemory hlisted hqueue => exact hlisted

/-- Until the run ends, nothing but the choice of the node is put into the outbox. -/
theorem Sets.queue_prefix_of_exit_eq_none (h : r.Sets node id taken) (hexit : r.exit = none) :
    r.queue <+: [.choose node] := by
  cases h with
  | waits h => exact h.queue_eq ▸ List.nil_prefix
  | chooses hlisted h => exact h.queue_eq ▸ List.prefix_refl _
  | fails hsome => simp [hexit] at hsome
  | succeeds v hsome => simp [hexit] at hsome

/-- A run that gets stuck has not ended by then. -/
theorem exit_eq_none_of_step (hstep : r.step (.setting id val) branch = none) : r.exit = none := by
  rw [step.eq_def] at hstep
  split at hstep
  · cases hstep
  · next hexit => simpa using hexit

/-- With an update in the outbox, the run is over and writes all that it has put there. -/
theorem Sets.finish_of_update (h : r.Sets node id taken) (hupdate : .update id v ∈ r.queue) :
    r.exit = some .shutdown ∧ r.queue = [.choose node, .update id v] := by
  have hvalue := h.memory_eq_iff.mpr hupdate
  cases h with
  | waits h => cases h.memory_eq.symm.trans hvalue
  | chooses hlisted h => cases h.memory_eq.symm.trans hvalue
  | fails hexit hmemory hlisted hqueue => exact absurd hvalue (hmemory v)
  | succeeds w hexit hmemory hlisted hqueue =>
    cases hmemory.symm.trans hvalue
    exact ⟨hexit, hqueue⟩

/-- A run that sets a value at one node, whatever the server sends and in whatever order events and
writes are taken up: the messages it writes are the choice of the node, then at most one more, which
gives the choice up or is the update; nothing is written unless the server has listed the node; and
it returns a value exactly if the update with this value was put into the outbox. Then the run is
over, and the update is written before the close. A run that gets stuck returns nothing, and by then
nothing but the choice of the node has been put into the outbox. -/
theorem setting_writes {branches : List Branch} (hcommand : ∀ c, Branch.command c ∉ branches) :
    (∀ r, underway (.setting id val) none (.pinnedTo node) branches = some r →
      play (.setting id val) none (.pinnedTo node) branches = some r.finish ∧
      r.written <+: r.finish.written ∧
      (r.finish.messages <+: [.choose node, .choose noNode] ∨
        ∃ v, r.finish.messages <+: [.choose node, .update id v]) ∧
      (r.finish.messages ≠ [] → ∃ b ∈ branches, b.Lists node) ∧
      ∀ v, (sentValue id r.finish.memory r.reason = .ok v ↔ .update id v ∈ r.queue) ∧
        (.update id v ∈ r.queue → r.exit = some .shutdown ∧
          r.finish.messages = [.choose node, .update id v] ∧
          ∃ written, r.finish.written = written ++ [.close] ∧
            .message (.update id v) ∈ written)) ∧
    (underway (.setting id val) none (.pinnedTo node) branches = none →
      play (.setting id val) none (.pinnedTo node) branches = none ∧
      ∃ taken branch rest r, branches = taken ++ branch :: rest ∧
        underway (.setting id val) none (.pinnedTo node) taken = some r ∧
        r.step (.setting id val) branch = none ∧ r.queue <+: [.choose node]) := by
  constructor
  · intro r hrun
    have h := sets_of_underway hcommand hrun
    refine ⟨play_of_underway hrun, r.written_prefix_finish, ?_, ?_, ?_⟩
    · rcases h.queue_prefix with hqueue | ⟨v, hqueue⟩
      · exact Or.inl (r.messages_finish_prefix.trans hqueue)
      · exact Or.inr ⟨v, r.messages_finish_prefix.trans hqueue⟩
    · intro hne
      apply h.exists_lists
      intro hqueue
      exact hne (List.prefix_nil.mp (hqueue ▸ r.messages_finish_prefix))
    · intro v
      rw [memory_finish, sentValue_eq_ok_iff]
      refine ⟨h.memory_eq_iff, fun hupdate => ?_⟩
      obtain ⟨hexit, hqueue⟩ := h.finish_of_update hupdate
      have hreason : r.reason = .shutdown := by rw [reason, hexit]; rfl
      refine ⟨hexit, (messages_finish_of_shutdown hreason).trans hqueue, _,
        written_finish_of_shutdown hreason, message_mem_of_mem_queue hupdate⟩
  · intro hnone
    obtain ⟨r₀, hr₀, -⟩ := exists_start node id val
    obtain ⟨taken, branch, rest, r, rfl, hrun, hstep⟩ := exists_underway_of_eq_none hr₀ hnone
    have htaken : ∀ c, Branch.command c ∉ taken := fun c hc =>
      hcommand c (List.mem_append_left _ hc)
    have hqueue := (sets_of_underway htaken hrun).queue_prefix_of_exit_eq_none
      (exit_eq_none_of_step hstep)
    exact ⟨play_eq_none_of_underway hnone, taken, branch, rest, r, rfl, hrun, hstep, hqueue⟩

/-- The server lists two nodes and sends the definitions of the chosen one; a ping comes between. -/
def sampleSetting : List Branch :=
  [.event (.frame Session.sampleNodes), .write, .event (.ping [0x07]),
    .event (.frame Session.sampleDefinitions)]

theorem setting_writes_sampleSetting :
    (∀ c, Branch.command c ∉ sampleSetting) ∧
    ∃ r, underway (.setting ⟨1⟩ (.bool false)) none (.pinnedTo "a") sampleSetting = some r ∧
      sentValue ⟨1⟩ r.finish.memory r.reason = .ok (.bool false) ∧
      r.finish.messages = [.choose "a", .update ⟨1⟩ (.bool false)] := by
  have hcommand : ∀ c, Branch.command c ∉ sampleSetting := by simp [sampleSetting]
  have hqueued : (underway (.setting ⟨1⟩ (.bool false)) none (.pinnedTo "a") sampleSetting).map
      (·.queue) = some [.choose "a", .update ⟨1⟩ (.bool false)] := by decide +kernel
  obtain ⟨r, hrun, hqueue⟩ := Option.map_eq_some_iff.mp hqueued
  obtain ⟨-, -, -, -, hreturns⟩ := (setting_writes hcommand).1 r hrun
  obtain ⟨hvalue, hwrites⟩ := hreturns (.bool false)
  have hupdate : .update ⟨1⟩ (.bool false) ∈ r.queue := by simp [hqueue]
  exact ⟨hcommand, r, hrun, hvalue.mpr hupdate, (hwrites hupdate).2.1⟩

end Run

end LiveTuner
