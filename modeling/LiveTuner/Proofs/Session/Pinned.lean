import LiveTuner.Proofs.Session.Consistency

/-!
# Sessions that are pinned to a node

A pinned session has one node to pick. When the server lists its nodes, it picks that one or none,
in whatever state it is and whatever it had selected. The user, however, may select any node that is
listed, and the session goes with the user. So over its life a pinned session names its node and
none, and besides exactly the other nodes that the user takes.

## Main definitions

* `Session.IsPinnedTo` — the session picks no other node
* `Session.Strays` — a turn in which the user takes another node
* `Session.NeverStrays` — there is none in a life
* `Session.IsTrueTo` — no other node has been named, and no other is selected
* `Session.Shift` — all that a turn can do to the selection of a pinned session

## Main results

* `Session.IsPinnedTo.shift` — every turn that comes to an end does one of them
* `Session.isTrueTo_iff_of_turns` — when a pinned session only ever selects its node
-/

namespace LiveTuner

namespace Session

variable {s s' t : Session} {node other : String} {life : List Turn}

/-- The session picks the node and no other, and takes messages into its outbox. -/
structure IsPinnedTo (s : Session) (node : String) : Prop where
  /-- The node is the preferred one. -/
  preferred_eq : s.preferred = some node
  /-- Only the preferred one may be picked. -/
  pinned_eq : s.pinned = true
  /-- Messages are taken into the outbox. -/
  outboxOpen_eq : s.outboxOpen = true

/-- The user takes another node than the given one: it is listed, and not selected yet. -/
def Strays (s : Session) (node : String) : Turn → Prop
  | .incident (.select other) =>
    s.state ≠ .disconnected ∧ other ∈ s.available ∧ other ≠ noNode ∧ other ≠ node ∧
      s.selected? ≠ some other
  | _ => False

/-- In no turn of a life does the user take another node than the given one. -/
def NeverStrays (s : Session) (node : String) : List Turn → Prop
  | [] => True
  | now :: later => ¬ s.Strays node now ∧ ∀ s' ∈ s.turn now, s'.NeverStrays node later

/-- Every node that has been named is the given one or none, and so is the selected one. -/
structure IsTrueTo (s : Session) (node : String) : Prop where
  /-- No other node has been named. -/
  choices : ∀ chosen ∈ choices s.outbox, chosen = node ∨ chosen = noNode
  /-- No other node is selected. -/
  selected : s.selected? = none ∨ s.selected? = some node

/-- What a turn does to the selection of a session, and what it says of that. -/
inductive Shift (node : String) (now : Turn) (s t : Session) : Prop where
  /-- Nothing is said of the selection. It stays, or ends with the connection. -/
  | keeps (hchoices : choices t.outbox = choices s.outbox)
    (hselected : t.selected? = s.selected? ∨ t.selected? = none)
  /-- The given node is selected. -/
  | follows (hchoices : choices t.outbox = choices s.outbox ++ [node])
    (hselected : t.selected? = some node)
  /-- The selection is given up. -/
  | clears (hchoices : choices t.outbox = choices s.outbox ++ [noNode])
    (hselected : t.selected? = none)
  /-- The user takes another node. -/
  | strays (other : String) (hnow : now = .incident (.select other)) (hstrays : s.Strays node now)
    (hchoices : choices t.outbox = choices s.outbox ++ [other])

instance (s : Session) (node : String) (now : Turn) : Decidable (s.Strays node now) := by
  unfold Strays
  split <;> infer_instance

instance decidableNeverStrays (node : String) :
    (s : Session) → (life : List Turn) → Decidable (s.NeverStrays node life)
  | _, [] => .isTrue trivial
  | s, now :: later =>
    have : DecidablePred fun s' : Session => s'.NeverStrays node later :=
      fun s' => decidableNeverStrays node s' later
    inferInstanceAs (Decidable
      (¬ s.Strays node now ∧ ∀ s' ∈ s.turn now, s'.NeverStrays node later))

/-! ### Picking -/

theorem IsPinnedTo.missingPinned?_eq (h : s.IsPinnedTo node) (hadvertised : s.advertised = true) :
    s.missingPinned? = if node ∈ s.available then none else some (.unknownNode node) := by
  by_cases hmem : node ∈ s.available
  · simp [missingPinned?, h.preferred_eq, hmem]
  · simp [missingPinned?, h.preferred_eq, h.pinned_eq, hadvertised, hmem]

/-- A pinned session picks its node if it is listed. -/
theorem IsPinnedTo.pickNode_of_mem (h : s.IsPinnedTo node) (hstate : s.state = .noNode)
    (hreserved : noNode ∉ s.available) (hmem : node ∈ s.available) (hadSelected : Bool) :
    (s.pickNode hadSelected).1 =
      { s.reset with state := .awaiting node, outbox := s.outbox ++ [.choose node] } := by
  have hnode : node ≠ noNode := fun heq => hreserved (heq ▸ hmem)
  have hpick : s.pick? = some node := by
    simp [pick?, h.preferred_eq, h.pinned_eq, hmem]
  have hselect : s.selectNode node =
      .ok ({ s.reset with state := .awaiting node }.send (.choose node), true) := by
    simp [selectNode, selected?, hstate, NodeState.node?, hnode, hmem]
  have hopen : s.reset.outboxOpen = true := h.outboxOpen_eq
  rw [pickNode, hpick]
  simp only [hselect, send, hopen, if_true]
  rfl

/-- It picks no other node, and the server is told if one was chosen. -/
theorem IsPinnedTo.pickNode_of_notMem (h : s.IsPinnedTo node) (hmem : node ∉ s.available)
    (hadSelected : Bool) :
    (s.pickNode hadSelected).1 =
      if hadSelected then { s with outbox := s.outbox ++ [.choose noNode] } else s := by
  have hpick : s.pick? = none := by
    simp [pick?, h.preferred_eq, h.pinned_eq, hmem]
  rw [pickNode, hpick]
  simp only [send, h.outboxOpen_eq, if_true]

/-- With nothing selected, the node is chosen if it is listed. -/
theorem IsPinnedTo.updateNodes_of_noNode (h : s.IsPinnedTo node) (hstate : s.state = .noNode)
    (names : List String) :
    ∃ t, (s.updateNodes names).1 = t ∧ t.IsPinnedTo node ∧ t.advertised = true ∧
      (node ∈ t.available ∧ node ∈ names ∧ t.state = .awaiting node ∧
          t.outbox = s.outbox ++ [.choose node] ∨
        node ∉ t.available ∧ t.outbox = s.outbox) := by
  have hpinned : (s.listed names).IsPinnedTo node :=
    ⟨h.preferred_eq, h.pinned_eq, h.outboxOpen_eq⟩
  have hreserved : noNode ∉ (s.listed names).available := by simp [listed]
  have hselected : s.selected? = none := by rw [selected?, hstate]; rfl
  rw [updateNodes_of_none hselected]
  by_cases hmem : node ∈ (s.listed names).available
  · exact ⟨_, hpinned.pickNode_of_mem hstate hreserved hmem false,
      ⟨h.preferred_eq, h.pinned_eq, h.outboxOpen_eq⟩, rfl,
      Or.inl ⟨hmem, (List.mem_filter.mp hmem).1, rfl, rfl⟩⟩
  · exact ⟨_, hpinned.pickNode_of_notMem hmem false, hpinned, rfl, Or.inr ⟨hmem, rfl⟩⟩

/-- The chosen node stays chosen while it is listed; else no node does. -/
theorem IsPinnedTo.updateNodes_of_awaiting (h : s.IsPinnedTo node)
    (hstate : s.state = .awaiting node) (names : List String) :
    ∃ t, (s.updateNodes names).1 = t ∧ t.IsPinnedTo node ∧ t.advertised = true ∧
      (node ∈ t.available ∧ t.state = .awaiting node ∧ t.outbox = s.outbox ∨
        node ∉ t.available ∧ t.outbox = s.outbox ++ [.choose noNode]) := by
  have hpinned : ({ (s.listed names).reset with state := .noNode } : Session).IsPinnedTo node :=
    ⟨h.preferred_eq, h.pinned_eq, h.outboxOpen_eq⟩
  have hselected : s.selected? = some node := by rw [selected?, hstate]; rfl
  rw [updateNodes_of_selected hselected]
  by_cases hmem : node ∈ (s.listed names).available
  · rw [if_pos (List.contains_iff_mem.mpr hmem)]
    exact ⟨_, rfl, ⟨h.preferred_eq, h.pinned_eq, h.outboxOpen_eq⟩, rfl,
      Or.inl ⟨hmem, hstate, rfl⟩⟩
  · rw [if_neg fun hc => hmem (List.contains_iff_mem.mp hc)]
    exact ⟨_, hpinned.pickNode_of_notMem hmem true,
      ⟨h.preferred_eq, h.pinned_eq, h.outboxOpen_eq⟩, rfl, Or.inr ⟨hmem, rfl⟩⟩

/-! ### Any turn -/

theorem isPinnedTo_pinnedTo (node : String) : (pinnedTo node).IsPinnedTo node := ⟨rfl, rfl, rfl⟩

theorem isTrueTo_pinnedTo (node : String) : (pinnedTo node).IsTrueTo node :=
  ⟨by simp [pinnedTo, new, LiveTuner.choices], Or.inl rfl⟩

/-- What is pinned concerns neither what is loaded nor what is selected. -/
theorem IsPinnedTo.congr (h : s.IsPinnedTo node) (hpreferred : t.preferred = s.preferred)
    (hpinned : t.pinned = s.pinned) (hopen : t.outboxOpen = s.outboxOpen) : t.IsPinnedTo node :=
  ⟨hpreferred.trans h.preferred_eq, hpinned.trans h.pinned_eq, hopen.trans h.outboxOpen_eq⟩

theorem choices_concat_choose (messages : List Outbound) (node : String) :
    choices (messages ++ [.choose node]) = choices messages ++ [node] :=
  choices_append messages [.choose node]

theorem choices_concat_update (messages : List Outbound) (id : ParamId) (val : Value) :
    choices (messages ++ [.update id val]) = choices messages := by
  rw [choices_append]
  exact List.append_nil _

/-- Sending a choice puts it behind those before. -/
theorem IsPinnedTo.choices_send (h : s.IsPinnedTo node) (other : String) :
    choices (s.send (.choose other)).outbox = choices s.outbox ++ [other] := by
  rw [send, if_pos h.outboxOpen_eq]
  exact choices_concat_choose s.outbox other

/-- With nothing selected, the server lists its nodes: the node is selected, or nothing is. -/
theorem IsPinnedTo.shift_pickNode {now : Turn} {hadSelected : Bool} (h : s.IsPinnedTo node)
    (hstate : s.state = .noNode) (hreserved : noNode ∉ s.available)
    (hchoices : choices s.outbox = choices s'.outbox) :
    (s.pickNode hadSelected).1.IsPinnedTo node ∧ Shift node now s' (s.pickNode hadSelected).1 := by
  have hnone : s.selected? = none := by
    rw [selected?, hstate]
    rfl
  by_cases hmem : node ∈ s.available
  · rw [h.pickNode_of_mem hstate hreserved hmem]
    refine ⟨h.congr rfl rfl rfl, .follows ?_ rfl⟩
    rw [← hchoices]
    exact choices_concat_choose s.outbox node
  · rw [h.pickNode_of_notMem hmem]
    cases hadSelected with
    | true =>
      refine ⟨h.congr rfl rfl rfl, .clears ?_ hnone⟩
      rw [← hchoices]
      exact choices_concat_choose s.outbox noNode
    | false => exact ⟨h, .keeps hchoices (Or.inr hnone)⟩

theorem IsPinnedTo.shift_updateNodes {now : Turn} (h : s.IsPinnedTo node)
    (hconnected : s.state ≠ .disconnected) (names : List String) :
    (s.updateNodes names).1.IsPinnedTo node ∧ Shift node now s (s.updateNodes names).1 := by
  have hreserved : noNode ∉ (s.listed names).available := by simp [listed]
  have hlisted : (s.listed names).IsPinnedTo node := h.congr rfl rfl rfl
  cases hselected : s.selected? with
  | none =>
    rw [updateNodes_of_none hselected]
    exact hlisted.shift_pickNode (state_of_selected?_eq_none hconnected hselected) hreserved rfl
  | some present =>
    rw [updateNodes_of_selected hselected]
    split_ifs with hstill
    · exact ⟨hlisted, .keeps rfl (Or.inl rfl)⟩
    · -- The selected node is gone, whichever it was: the session is as if it had none.
      have hcleared :
          ({ (s.listed names).reset with state := .noNode } : Session).IsPinnedTo node :=
        hlisted.congr rfl rfl rfl
      exact hcleared.shift_pickNode rfl hreserved rfl

theorem IsPinnedTo.send (h : s.IsPinnedTo node) (m : Outbound) : (s.send m).IsPinnedTo node := by
  rw [send_eq]
  exact h.congr rfl rfl rfl

/-- The user selects any node that is listed, whatever the session is pinned to. -/
theorem IsPinnedTo.shift_selectNode {changed : Bool} (h : s.IsPinnedTo node)
    (hselect : s.selectNode other = .ok (t, changed)) :
    t.IsPinnedTo node ∧ Shift node (.incident (.select other)) s t := by
  have hcleared (state : NodeState) : ({ s.reset with state } : Session).IsPinnedTo node :=
    h.congr rfl rfl rfl
  rw [selectNode] at hselect
  split_ifs at hselect with hdis hnone hsame hlisted
  · rw [deselect] at hselect
    split at hselect
    · obtain ⟨rfl, -⟩ := Prod.mk.inj (Except.ok.inj hselect)
      exact ⟨h, .keeps rfl (Or.inl rfl)⟩
    · obtain ⟨rfl, -⟩ := Prod.mk.inj (Except.ok.inj hselect)
      refine ⟨(hcleared .noNode).send _, .clears ((hcleared .noNode).choices_send noNode) ?_⟩
      rw [send_eq]
      rfl
  · obtain ⟨rfl, -⟩ := Prod.mk.inj (Except.ok.inj hselect)
    exact ⟨h, .keeps rfl (Or.inl rfl)⟩
  · obtain ⟨rfl, -⟩ := Prod.mk.inj (Except.ok.inj hselect)
    have hchoices := (hcleared (.awaiting other)).choices_send other
    refine ⟨(hcleared (.awaiting other)).send _, ?_⟩
    by_cases heq : other = node
    · subst heq
      refine .follows hchoices ?_
      rw [send_eq]
      rfl
    · exact .strays other rfl ⟨hdis, by simpa using hlisted, hnone, heq, hsame⟩ hchoices

/-- Whatever else is handled says nothing of the selection. -/
theorem IsPinnedTo.shift_interact {now : Turn} {id : ParamId} {interaction : Interaction}
    {val? : Option Value} (h : s.IsPinnedTo node)
    (hinteract : s.interact id interaction = some (.ok (t, val?))) :
    t.IsPinnedTo node ∧ Shift node now s t := by
  obtain ⟨editors, -, ⟨-, rfl⟩ | ⟨val, -, rfl⟩⟩ := interact_eq_ok hinteract
  · exact ⟨h.congr rfl rfl rfl, .keeps rfl (Or.inl rfl)⟩
  · rw [send_eq]
    refine ⟨h.congr rfl rfl rfl, .keeps ?_ (Or.inl rfl)⟩
    dsimp only
    rw [if_pos h.outboxOpen_eq, choices_concat_update]

/-- Every turn of a pinned session leaves it pinned, and does one of the listed things. -/
theorem IsPinnedTo.shift {now : Turn} (h : s.IsPinnedTo node) (hturn : s.turn now = some t) :
    t.IsPinnedTo node ∧ Shift node now s t := by
  cases now with
  | connect =>
    obtain rfl := Option.some.inj hturn
    exact ⟨h.congr rfl rfl rfl, .keeps rfl (Or.inr rfl)⟩
  | disconnect =>
    obtain rfl := Option.some.inj hturn
    exact ⟨h.congr rfl rfl rfl, .keeps rfl (Or.inr rfl)⟩
  | incident incident =>
    cases outcome_of_handle hturn with
    | stays => exact ⟨h, .keeps rfl (Or.inl rfl)⟩
    | lists hconnected names => exact h.shift_updateNodes hconnected names
    | loads hawaiting definitions =>
      obtain ⟨present, hs, ht⟩ := load_state hawaiting (definitions.map Definition.resolveLeniently)
      refine ⟨h.congr rfl rfl rfl, .keeps rfl (Or.inl ?_)⟩
      rw [selected?, ht, selected?, hs]
      rfl
    | redefines hready definitions hredefine =>
      obtain ⟨editors, rfl⟩ := redefine_eq hredefine
      exact ⟨h.congr rfl rfl rfl, .keeps rfl (Or.inl rfl)⟩
    | pushes hready id val hpush =>
      obtain ⟨registry, editors, rfl⟩ := pushValue_eq hpush
      exact ⟨h.congr rfl rfl rfl, .keeps rfl (Or.inl rfl)⟩
    | selects other hselect => exact h.shift_selectNode hselect
    | edits id interaction hinteract => exact h.shift_interact hinteract

/-! ### A life -/

/-- What has been named stays named. -/
theorem Shift.mem_choices {now : Turn} {chosen : String} (hshift : Shift node now s t)
    (h : chosen ∈ choices s.outbox) : chosen ∈ choices t.outbox := by
  cases hshift with
  | keeps hchoices => exact hchoices ▸ h
  | follows hchoices | clears hchoices | strays _ _ _ hchoices =>
    exact hchoices ▸ List.mem_append_left _ h

/-- In a turn, only a node that the user takes is named besides the given one and none. -/
theorem Shift.of_mem_choices {now : Turn} {chosen : String} (hshift : Shift node now s t)
    (h : chosen ∈ choices t.outbox) :
    chosen ∈ choices s.outbox ∨ chosen = node ∨ chosen = noNode ∨
      now = .incident (.select chosen) ∧ s.Strays node now := by
  cases hshift with
  | keeps hchoices => exact Or.inl (hchoices ▸ h)
  | follows hchoices =>
    rw [hchoices, List.mem_append, List.mem_singleton] at h
    exact h.imp_right Or.inl
  | clears hchoices =>
    rw [hchoices, List.mem_append, List.mem_singleton] at h
    exact h.imp_right (Or.inr ∘ Or.inl)
  | strays other hnow hstrays hchoices =>
    rw [hchoices, List.mem_append, List.mem_singleton] at h
    rcases h with h | rfl
    · exact Or.inl h
    · exact Or.inr (Or.inr (Or.inr ⟨hnow, hstrays⟩))

/-- A turn in which the user takes no other node leaves a session true to its node. -/
theorem IsTrueTo.shift {now : Turn} (h : s.IsTrueTo node) (hshift : Shift node now s t)
    (hstays : ¬ s.Strays node now) : t.IsTrueTo node where
  choices chosen hchosen := by
    rcases hshift.of_mem_choices hchosen with hbefore | hnode | hnone | ⟨-, hstrays⟩
    · exact h.choices chosen hbefore
    · exact Or.inl hnode
    · exact Or.inr hnone
    · exact absurd hstrays hstays
  selected := by
    cases hshift with
    | keeps hchoices hselected =>
      rcases hselected with hsame | hnone
      · exact hsame ▸ h.selected
      · exact Or.inl hnone
    | follows hchoices hselected => exact Or.inr hselected
    | clears hchoices hselected => exact Or.inl hselected
    | strays other hnow hstrays => exact absurd hstrays hstays

/-- A turn in which the user takes another node names it. -/
theorem IsPinnedTo.exists_choice {now : Turn} (h : s.IsPinnedTo node)
    (hstrays : s.Strays node now) (hturn : s.turn now = some t) :
    ∃ chosen ∈ choices t.outbox, chosen ≠ node ∧ chosen ≠ noNode := by
  cases now with
  | connect | disconnect => exact hstrays.elim
  | incident incident =>
    cases incident with
    | frame | interact => exact hstrays.elim
    | select other =>
      obtain ⟨hconnected, hlisted, hnone, hother, hsame⟩ := hstrays
      have hselect : s.selectNode other =
          .ok (({ s.reset with state := .awaiting other }).send (.choose other), true) := by
        simp [selectNode, hconnected, hnone, hsame, hlisted]
      have hcleared : ({ s.reset with state := .awaiting other } : Session).IsPinnedTo node :=
        h.congr rfl rfl rfl
      rw [turn, handle, hselect] at hturn
      obtain rfl := Option.some.inj hturn
      refine ⟨other, ?_, hother, hnone⟩
      rw [hcleared.choices_send]
      exact List.mem_append_right _ (List.mem_singleton_self other)

/-- What has been named stays named for life. -/
theorem IsPinnedTo.mem_choices_of_turns {chosen : String} (h : s.IsPinnedTo node)
    (hlife : s.turns life = some s') (hchosen : chosen ∈ choices s.outbox) :
    chosen ∈ choices s'.outbox := by
  induction life generalizing s with
  | nil => exact Option.some.inj hlife ▸ hchosen
  | cons now later ih =>
    obtain ⟨t, hturn, hlater⟩ := exists_turns_of_cons hlife
    obtain ⟨ht, hshift⟩ := h.shift hturn
    exact ih ht hlater (hshift.mem_choices hchosen)

/-- Over a life, a node is named besides the given one and none only if the user selects it. -/
theorem IsPinnedTo.of_mem_choices_of_turns {chosen : String} (h : s.IsPinnedTo node)
    (hlife : s.turns life = some s') (hchosen : chosen ∈ choices s'.outbox) :
    chosen ∈ choices s.outbox ∨ chosen = node ∨ chosen = noNode ∨
      .incident (.select chosen) ∈ life := by
  induction life generalizing s with
  | nil => exact Or.inl (Option.some.inj hlife ▸ hchosen)
  | cons now later ih =>
    obtain ⟨t, hturn, hlater⟩ := exists_turns_of_cons hlife
    obtain ⟨ht, hshift⟩ := h.shift hturn
    rcases ih ht hlater with hbefore | hnode | hnone | hselect
    · rcases hshift.of_mem_choices hbefore with hbefore | hnode | hnone | ⟨rfl, -⟩
      · exact Or.inl hbefore
      · exact Or.inr (Or.inl hnode)
      · exact Or.inr (Or.inr (Or.inl hnone))
      · exact Or.inr (Or.inr (Or.inr List.mem_cons_self))
    · exact Or.inr (Or.inl hnode)
    · exact Or.inr (Or.inr (Or.inl hnone))
    · exact Or.inr (Or.inr (Or.inr (List.mem_cons_of_mem now hselect)))

/-- While the user takes no other node, a session stays true to its node. -/
theorem IsTrueTo.turns (htrue : s.IsTrueTo node) (h : s.IsPinnedTo node)
    (hlife : s.turns life = some s') (hnever : s.NeverStrays node life) : s'.IsTrueTo node := by
  induction life generalizing s with
  | nil => exact Option.some.inj hlife ▸ htrue
  | cons now later ih =>
    obtain ⟨t, hturn, hlater⟩ := exists_turns_of_cons hlife
    obtain ⟨ht, hshift⟩ := h.shift hturn
    exact ih (htrue.shift hshift hnever.1) ht hlater (hnever.2 t hturn)

/-- Once the user has taken another node, a session is never true to its node again. -/
theorem IsPinnedTo.neverStrays_of_isTrueTo (h : s.IsPinnedTo node)
    (hlife : s.turns life = some s') (htrue : s'.IsTrueTo node) : s.NeverStrays node life := by
  induction life generalizing s with
  | nil => trivial
  | cons now later ih =>
    obtain ⟨t, hturn, hlater⟩ := exists_turns_of_cons hlife
    obtain ⟨ht, -⟩ := h.shift hturn
    refine ⟨fun hstrays => ?_, fun t' hturn' => ?_⟩
    · -- The outbox only grows, so the other node is still named at the end of the life.
      obtain ⟨chosen, hchosen, hnode, hnone⟩ := h.exists_choice hstrays hturn
      rcases htrue.choices chosen (ht.mem_choices_of_turns hlater hchosen) with heq | heq
      · exact hnode heq
      · exact hnone heq
    · obtain rfl : t = t' := Option.some.inj (hturn.symm.trans hturn')
      exact ih ht hlater

/-- When a pinned session only ever selects its node. Over any life of it, with connections, frames,
selections and edits in any order, every node that it names is its own, none, or one that the user
asked for by name. It names no other than its own and none, and has none but its own selected,
exactly if the user never takes another node: one that is listed and not selected at that time. -/
theorem isTrueTo_iff_of_turns (hlife : (pinnedTo node).turns life = some s) :
    (∀ chosen ∈ choices s.outbox,
      chosen = node ∨ chosen = noNode ∨ .incident (.select chosen) ∈ life) ∧
    (s.IsTrueTo node ↔ (pinnedTo node).NeverStrays node life) := by
  have hpinned := isPinnedTo_pinnedTo node
  refine ⟨fun chosen hchosen => ?_, hpinned.neverStrays_of_isTrueTo hlife,
    (isTrueTo_pinnedTo node).turns hpinned hlife⟩
  rcases hpinned.of_mem_choices_of_turns hlife hchosen with hbefore | hrest
  · cases hbefore
  · exact hrest

/-- Both nodes are listed, the user gives the selection up and takes it back, a node that is not
listed is tried, the node vanishes, and the connection is lost. -/
def sampleFaithful : List Turn :=
  [.connect, .incident (.frame sampleNodes), .incident (.select noNode),
    .incident (.select "b"), .incident (.select "c"), .incident (.frame sampleListing),
    .disconnect, .incident (.select "a")]

theorem isTrueTo_after_sampleFaithful :
    ∃ s, (pinnedTo "b").turns sampleFaithful = some s ∧
      choices s.outbox = ["b", noNode, "b", noNode] ∧ s.IsTrueTo "b" := by
  have hrun : ((pinnedTo "b").turns sampleFaithful).map (fun s => choices s.outbox) =
      some ["b", noNode, "b", noNode] := by decide +kernel
  obtain ⟨s, hlife, hchoices⟩ := Option.map_eq_some_iff.mp hrun
  have hnever : (pinnedTo "b").NeverStrays "b" sampleFaithful := by decide +kernel
  exact ⟨s, hlife, hchoices, (isTrueTo_iff_of_turns hlife).2.mpr hnever⟩

/-- Both nodes are listed, and the user selects the one that the session is not pinned to. -/
def sampleStraying : List Turn :=
  [.connect, .incident (.frame sampleNodes), .incident (.select "b")]

/-- A session that is pinned to one node selects another one on request. -/
theorem not_isTrueTo_after_sampleStraying :
    ∃ s, (pinnedTo "a").turns sampleStraying = some s ∧ .choose "b" ∈ s.outbox ∧
      s.selected? = some "b" ∧ ¬ s.IsTrueTo "a" := by
  have hrun : ((pinnedTo "a").turns sampleStraying).map (fun s => (s.outbox, s.selected?)) =
      some ([.choose "a", .choose "b"], some "b") := by decide +kernel
  obtain ⟨s, hlife, hs⟩ := Option.map_eq_some_iff.mp hrun
  obtain ⟨houtbox, hselected⟩ := Prod.mk.inj hs
  refine ⟨s, hlife, by simp [houtbox], hselected, fun htrue => ?_⟩
  simpa [hselected] using htrue.selected

end Session

end LiveTuner
