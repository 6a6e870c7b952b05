import LiveTuner.Proofs.Session.Push

/-!
# Values of parameters without editors

A parameter that its group hides has an entry in the registry, and a copy in the definition that the
editor of the group is bound to. A value that is pushed for it reaches the entry and the copies in
all entries around it. It does not reach the copy of the editor, neither now nor later: the editors
never read the registry, and a session with any other registry would go on to show the same.

## Main definitions

* `Param.HoldsAt`, `EditorTree.HoldsAt` — every copy of an id has a value
* `Session.LooksLike` — two sessions are the same but for their registries

## Main results

* `Session.LooksLike.turn`, `Session.LooksLike.turns` — the editors never read the registry
* `InStep.exists_copy` — in step with the registry, some editor has a copy of every id, and all
  copies that editors have are the same
* `Session.pushed_without_editor` — a value pushed for an id without an editor reaches the entries,
  and no editor
-/

namespace LiveTuner

/-! ### Copies -/

/-- Every copy of the id has the value: to take it would change nothing. -/
def Param.HoldsAt (p : Param) (id : ParamId) (val : Value) : Prop :=
  ∀ q ∈ p.nodes, q.id = id → q.setValue? val = some q

/-- Once a value has been taken for an id, every entry that repeats no id has it. -/
theorem Registry.IsKeyed.exists_holdsAt {r r' : Registry} {id g : ParamId} {val : Value} {p : Param}
    (h : r.IsKeyed) (hset : r.setValue? id val = some r') (hp : r.get? g = some p)
    (hnodup : p.ids.Nodup) : ∃ p', r'.get? g = some p' ∧ p'.HoldsAt id val := by
  obtain ⟨entry, hentry, hset'⟩ := Option.bind_eq_some_iff.mp hset
  obtain ⟨x, hx, -⟩ := Option.bind_eq_some_iff.mp hset'
  have htakes := h.takes id val
  simp only [Takes, hset, hentry, hx, Option.bind_some, Option.getD_some] at htakes
  obtain ⟨hid, hget⟩ := htakes
  have hleaf := (Forest.setValue?_eq_some hx).2
  have hagain := Param.setValue?_of_setValue?_eq_some hx
  by_cases hg : g = id
  · refine ⟨x, by rw [hget, if_pos hg], fun q hq _ => ?_⟩
    rw [Param.nodes_eq, hleaf, List.flatMap_nil, List.mem_singleton] at hq
    exact hq ▸ hagain
  · -- The other entries have exchanged their copies.
    have hne : p.id ≠ x.id := by rwa [h g p hp, hid]
    refine ⟨p.exchange x, ?_, fun q hq hqid => ?_⟩
    · rw [hget, if_neg hg, hp, Option.map_some, Param.replaceDescendant_eq hnodup hne]
    · rw [Param.eq_of_mem_nodes_exchange hleaf hq (hqid.trans hid.symm)]
      exact hagain

/-- The definitions of all editors have a value in every copy of an id. -/
def EditorTree.HoldsAt (t : EditorTree) (id : ParamId) (val : Value) : Prop :=
  ∀ g e, t.get? g = some e → e.param.HoldsAt id val

/-- In step with a registry that knows an id, some editor has a copy of it, and all copies that
editors have are the same. -/
theorem InStep.exists_copy {r : Registry} {t : EditorTree} {id : ParamId} {p : Param}
    (h : InStep r t) (hp : r.get? id = some p) :
    ∃ g e q, t.get? g = some e ∧ q ∈ e.param.nodes ∧ q.id = id ∧
      ∀ val, t.HoldsAt id val ↔ q.setValue? val = some q := by
  obtain ⟨f, hm, hagrees⟩ := h.agreesOn
  rw [hm.get?_eq] at hp
  have hid := Forest.id_eq_of_node?_eq_some hp
  -- The forest of the editors has the ids of that of the registry, and a topmost editor is bound to
  -- the tree that the id stands in.
  have hmem : id ∈ t.forest.ids := by
    rw [← t.forest.ids_skeleton, ← hagrees.skeleton_eq, f.ids_skeleton]
    exact Forest.mem_ids_iff.mpr ⟨p, Forest.mem_nodes_of_node?_eq_some hp, hid⟩
  obtain ⟨q, hq, hqid⟩ := Forest.mem_ids_iff.mp hmem
  obtain ⟨x, hx, hqx⟩ := List.mem_flatMap.mp hq
  obtain ⟨g, -, hg⟩ := List.mem_filterMap.mp hx
  obtain ⟨e, he, rfl⟩ := Option.map_eq_some_iff.mp hg
  refine ⟨g, e, q, he, hqx, hqid, fun val => ⟨fun hholds => hholds g e he q hqx hqid, ?_⟩⟩
  -- All copies are nodes of one forest, in which the id stands once.
  intro hval g' e' he' q' hq' hqid'
  have hnode := Forest.mem_nodes_trans (h.isFaithful.bound g' e' he').1 hq'
  rwa [Forest.eq_of_id_eq h.isFaithful.nodup_ids hnode hq (hqid'.trans hqid.symm)]

/-! ### Sessions that look alike -/

namespace Session

variable {s s' t start : Session} {id : ParamId} {val : Value} {now : Turn} {life : List Turn}
  {problems : List Problem} {changed : Bool} {interaction : Interaction}

/-- The sessions are the same but for their registries. -/
def LooksLike (s t : Session) : Prop := ∃ registry, t = { s with registry }

theorem exists_pushValue_of_not_contains (hdead : s.editors.contains id = false) (val : Value) :
    ∃ registry problems, s.pushValue id val = some ({ s with registry }, problems) := by
  rw [pushValue, hdead]
  cases s.registry.get? id with
  | none => exact ⟨s.registry, _, rfl⟩
  | some entry =>
    cases s.registry.setValue? id val with
    | none => exact ⟨s.registry, _, rfl⟩
    | some registry => exact ⟨registry, _, rfl⟩

namespace LooksLike

theorem refl (s : Session) : s.LooksLike s := ⟨s.registry, rfl⟩

theorem symm (h : s.LooksLike t) : t.LooksLike s := by
  obtain ⟨registry, rfl⟩ := h
  exact ⟨s.registry, rfl⟩

/-- Unless the definitions of a node are loaded, there is nothing to differ in. -/
theorem eq_of_not_ready (h : s.LooksLike t) (hs : s.IsKept) (ht : t.IsKept)
    (hready : s.isReady = false) : t = s := by
  obtain ⟨registry, rfl⟩ := h
  have hregistry : registry = s.registry :=
    (ht hready).registry_eq.trans (hs hready).registry_eq.symm
  rw [hregistry]

/-- The listed nodes do not depend on what is loaded, which is kept or dropped. -/
theorem updateNodes (h : s.LooksLike t) (hready : s.isReady = true) (names : List String) :
    (s.updateNodes names).1.LooksLike (t.updateNodes names).1 := by
  obtain ⟨registry, rfl⟩ := h
  obtain ⟨node, hstate⟩ := exists_state_of_isReady hready
  have hsel : s.selected? = some node := by simp [selected?, hstate, NodeState.node?]
  have hsel' : ({ s with registry } : Session).selected? = some node := hsel
  rw [updateNodes_of_selected hsel, updateNodes_of_selected hsel']
  have havailable : (({ s with registry } : Session).listed names).available =
      (s.listed names).available := rfl
  rw [havailable]
  split_ifs
  · exact ⟨registry, rfl⟩
  · exact refl _

theorem deselect (h : s.LooksLike t) (hdeselect : s.deselect = (s', changed)) :
    ∃ t', t.deselect = (t', changed) ∧ s'.LooksLike t' := by
  obtain ⟨registry, rfl⟩ := h
  have hsel : ({ s with registry } : Session).selected? = s.selected? := rfl
  rw [Session.deselect] at hdeselect ⊢
  rw [hsel]
  split at hdeselect
  · obtain ⟨rfl, rfl⟩ := Prod.mk.inj hdeselect
    exact ⟨_, rfl, registry, rfl⟩
  · obtain ⟨rfl, rfl⟩ := Prod.mk.inj hdeselect
    exact ⟨_, rfl, refl _⟩

theorem selectNode (h : s.LooksLike t) (node : String)
    (hselect : s.selectNode node = .ok (s', changed)) :
    ∃ t', t.selectNode node = .ok (t', changed) ∧ s'.LooksLike t' := by
  have hdeselect : s.deselect = (s', changed) → _ := h.deselect
  obtain ⟨registry, rfl⟩ := h
  have hsel : ({ s with registry } : Session).selected? = s.selected? := rfl
  rw [Session.selectNode] at hselect ⊢
  simp only [hsel]
  split_ifs at hselect ⊢
  · obtain ⟨t', ht', hlooks⟩ := hdeselect (Except.ok.inj hselect)
    exact ⟨t', by rw [ht'], hlooks⟩
  · obtain ⟨rfl, rfl⟩ := Prod.mk.inj (Except.ok.inj hselect)
    exact ⟨_, rfl, registry, rfl⟩
  · obtain ⟨rfl, rfl⟩ := Prod.mk.inj (Except.ok.inj hselect)
    exact ⟨_, rfl, refl _⟩

/-- Definitions that come later are taken by registry and editors apart from each other. -/
theorem redefine (h : s.LooksLike t) {params : List Param}
    (hredefine : s.redefine params = some (s', problems)) :
    ∃ t', t.redefine params = some (t', problems) ∧ s'.LooksLike t' := by
  obtain ⟨registry, rfl⟩ := h
  obtain ⟨⟨editors, problems⟩, hreconcile, heq⟩ := Option.bind_eq_some_iff.mp hredefine
  obtain ⟨rfl, rfl⟩ := Prod.mk.inj (Option.some.inj heq)
  refine ⟨{ s with registry := registry.flatten params, editors }, ?_, registry.flatten params, rfl⟩
  simp [Session.redefine, hreconcile]

/-- An editor judges a pushed value, and then the registry is given it. Without an editor the value
is a matter of the registry alone. -/
theorem pushValue (h : s.LooksLike t) (hpush : s.pushValue id val = some (s', problems)) :
    ∃ t' problems', t.pushValue id val = some (t', problems') ∧ s'.LooksLike t' := by
  obtain ⟨registry, rfl⟩ := h
  cases hlive : s.editors.contains id with
  | false =>
    -- The two registries may judge differently, but that shows in what is reported only.
    obtain ⟨registry₁, problems₁, heq₁⟩ := exists_pushValue_of_not_contains hlive val
    obtain ⟨registry₂, problems₂, heq₂⟩ :=
      exists_pushValue_of_not_contains (s := { s with registry }) hlive val
    obtain ⟨rfl, rfl⟩ := Prod.mk.inj (Option.some.inj (heq₁.symm.trans hpush))
    exact ⟨_, _, heq₂, registry₂, rfl⟩
  | true =>
    rw [Session.pushValue, if_pos hlive] at hpush ⊢
    obtain ⟨result, hbind, heq⟩ := Option.bind_eq_some_iff.mp hpush
    simp only [hbind]
    cases result with
    | error problem =>
      obtain ⟨rfl, rfl⟩ := Prod.mk.inj (Option.some.inj heq)
      exact ⟨_, _, rfl, registry, rfl⟩
    | ok editors =>
      obtain ⟨rfl, rfl⟩ := Prod.mk.inj (Option.some.inj heq)
      exact ⟨_, _, rfl, _, rfl⟩

theorem handleMessage {message : Inbound} (h : s.LooksLike t) (hready : s.isReady = true)
    (hmessage : s.handleMessage message = some (s', problems)) :
    ∃ t' problems', t.handleMessage message = some (t', problems') ∧ s'.LooksLike t' := by
  have hready' : t.isReady = true := by
    obtain ⟨registry, rfl⟩ := h
    exact hready
  have hstay : ∀ {problems₁ problems₂ : List Problem}, some (s, problems₁) = some (s', problems) →
      ∃ t' problems', some (t, problems₂) = some (t', problems') ∧ s'.LooksLike t' := by
    intro problems₁ problems₂ heq
    exact ⟨t, problems₂, rfl, eq_of_some_mk_eq heq ▸ h⟩
  cases message with
  | nodes names =>
    obtain rfl : (s.updateNodes names).1 = s' := by rw [Option.some.inj hmessage]
    exact ⟨_, _, rfl, h.updateNodes hready names⟩
  | unrecognized | other => exact hstay hmessage
  | definitions definitions rejected =>
    simp only [Session.handleMessage, hready, hready', isAwaiting_of_isReady, Bool.false_and,
      Bool.false_eq_true, if_false, if_true] at hmessage ⊢
    obtain ⟨⟨u, problems₁⟩, hredefine, heq⟩ := Option.bind_eq_some_iff.mp hmessage
    obtain ⟨t', ht', hlooks⟩ := h.redefine hredefine
    exact ⟨t', _, by rw [ht']; rfl, eq_of_some_mk_eq heq ▸ hlooks⟩
  | push id val =>
    rw [Session.handleMessage, if_pos hready] at hmessage
    rw [Session.handleMessage, if_pos hready']
    exact h.pushValue hmessage

theorem handle_frame {payload : List UInt8} (h : s.LooksLike t) (hready : s.isReady = true)
    (hhandle : s.handle (.frame payload) = some s') :
    ∃ t', t.handle (.frame payload) = some t' ∧ s'.LooksLike t' := by
  have hconnected := connected_of_isReady hready
  have hconnected' : t.state ≠ .disconnected := by
    obtain ⟨registry, rfl⟩ := h
    exact hconnected
  obtain ⟨⟨u, problems⟩, hframe, rfl⟩ := Option.map_eq_some_iff.mp hhandle
  rw [handleFrame, if_neg hconnected] at hframe
  rw [handle, handleFrame, if_neg hconnected']
  cases hclassify : Inbound.classify payload with
  | error fault =>
    rw [hclassify] at hframe
    exact ⟨t, rfl, eq_of_some_mk_eq hframe ▸ h⟩
  | ok message =>
    rw [hclassify] at hframe
    obtain ⟨t', problems', ht', hlooks⟩ := h.handleMessage hready hframe
    exact ⟨t', by simp only [ht', Option.map_some], hlooks⟩

theorem handle_select {node : String} (h : s.LooksLike t)
    (hhandle : s.handle (.select node) = some s') :
    ∃ t', t.handle (.select node) = some t' ∧ s'.LooksLike t' := by
  cases hselect : s.selectNode node with
  | ok result =>
    obtain ⟨t', ht', hlooks⟩ := h.selectNode node hselect
    simp only [handle, hselect, Option.some.injEq] at hhandle
    exact ⟨t', by simp only [handle, ht'], hhandle ▸ hlooks⟩
  | error problem =>
    simp only [handle, hselect, Option.some.injEq] at hhandle
    cases hselect' : t.selectNode node with
    | error problem' => exact ⟨t, by simp only [handle, hselect'], hhandle ▸ h⟩
    | ok result =>
      -- What the one accepts, the other does.
      obtain ⟨u, hu, -⟩ := h.symm.selectNode node hselect'
      cases hselect.symm.trans hu

/-- An editor judges an edit before the registry is given the value. -/
theorem handle_interact (h : s.LooksLike t)
    (hhandle : s.handle (.interact id interaction) = some s') :
    ∃ t', t.handle (.interact id interaction) = some t' ∧ s'.LooksLike t' := by
  obtain ⟨registry, rfl⟩ := h
  obtain ⟨result, hresult, rfl⟩ := Option.map_eq_some_iff.mp hhandle
  rw [Session.interact] at hresult
  rw [handle, Session.interact]
  split_ifs at hresult ⊢
  · obtain rfl := Option.some.inj hresult
    exact ⟨_, rfl, registry, rfl⟩
  · obtain ⟨taken, htaken, heq⟩ := Option.bind_eq_some_iff.mp hresult
    simp only [htaken]
    rcases taken with problem | ⟨editors, _ | val⟩
    · obtain rfl := Option.some.inj heq
      exact ⟨_, rfl, registry, rfl⟩
    · obtain rfl := Option.some.inj heq
      exact ⟨_, rfl, registry, rfl⟩
    · -- One registry may take the value and the other refuse it; neither is asked.
      obtain rfl := Option.some.inj heq
      refine ⟨_, rfl, (registry.setValue? id val).getD registry, ?_⟩
      rw [send_eq, send_eq]

/-- Whatever a registry holds, a turn that comes to an end shows the same. -/
theorem turn (h : s.LooksLike t) (hs : s.IsKept) (ht : t.IsKept) (hturn : s.turn now = some s') :
    ∃ t', t.turn now = some t' ∧ s'.LooksLike t' := by
  cases hready : s.isReady with
  | false =>
    -- Both registries are empty.
    obtain rfl := h.eq_of_not_ready hs ht hready
    exact ⟨s', hturn, refl s'⟩
  | true =>
    cases now with
    | connect | disconnect =>
      -- What the registries hold is dropped.
      obtain ⟨registry, rfl⟩ := h
      obtain rfl := Option.some.inj hturn
      exact ⟨_, rfl, refl _⟩
    | incident incident =>
      cases incident with
      | frame payload => exact h.handle_frame hready hturn
      | select node => exact h.handle_select hturn
      | interact id interaction => exact h.handle_interact hturn

/-- Whatever a registry holds, any further life that comes to an end shows the same. -/
theorem turns (h : s.LooksLike t) (hs : s.IsConsistent) (ht : t.IsConsistent)
    (hlife : s.turns life = some s') : ∃ t', t.turns life = some t' ∧ s'.LooksLike t' := by
  induction life generalizing s t with
  | nil =>
    obtain rfl := Option.some.inj hlife
    exact ⟨t, rfl, h⟩
  | cons now later ih =>
    obtain ⟨u, hu, hlater⟩ := exists_turns_of_cons hlife
    obtain ⟨v, hv, hlooks⟩ := h.turn hs.isKept ht.isKept hu
    obtain ⟨t', ht', hlooks'⟩ := ih hlooks (hs.turn hu) (ht.turn hv) hlater
    refine ⟨t', ?_, hlooks'⟩
    rw [Session.turns, List.foldlM_cons, hv]
    exact ht'

/-- The editors are the same at the end of any further life. -/
theorem editors_turns (h : s.LooksLike t) (hs : s.IsConsistent) (ht : t.IsConsistent)
    (life : List Turn) : (t.turns life).map (·.editors) = (s.turns life).map (·.editors) := by
  cases hlife : s.turns life with
  | some s' =>
    obtain ⟨t', ht', registry, rfl⟩ := h.turns hs ht hlife
    rw [ht']
    rfl
  | none =>
    cases hlife' : t.turns life with
    | none => rfl
    | some t' =>
      -- What comes to an end for the one does for the other.
      obtain ⟨s', hs', -⟩ := h.symm.turns ht hs hlife'
      cases hlife.symm.trans hs'

end LooksLike

/-! ### Pushed values -/

theorem IsNew.isAligned (h : s.IsNew) : s.IsAligned := by
  have hkept := h.isConsistent.isKept
  cases h with
  | plain | pinned => exact isAligned_of_isBlank (hkept rfl) rfl

/-- A new session has lived any life and is ready. A value is pushed for an id without an editor,
and nothing is reported. Then every entry that repeats no id has the value wherever it has the id.
The editors have learned nothing: whatever happens later, they will be those that they would have
been without the push, and those that have copies of the id hold the value if they did so before,
and only then. If all definitions of the life suited the session, some editor has a copy, and all
copies are the same. -/
theorem pushed_without_editor (hstart : start.IsNew) (hlife : start.turns life = some s)
    (hready : s.isReady = true) (hnone : s.editors.get? id = none)
    (hpush : s.handleMessage (.push id val) = some (s', [])) :
    (∀ g p, s.registry.get? g = some p → p.ids.Nodup →
      ∃ p', s'.registry.get? g = some p' ∧ p'.HoldsAt id val) ∧
    (∀ later, (s'.turns later).map (·.editors) = (s.turns later).map (·.editors)) ∧
    (s'.editors.HoldsAt id val ↔ s.editors.HoldsAt id val) ∧
    (start.Admits life → ∃ g e q, s.editors.get? g = some e ∧ q ∈ e.param.nodes ∧ q.id = id ∧
      (s'.editors.HoldsAt id val ↔ q.setValue? val = some q)) := by
  have hconsistent := hstart.isConsistent.turns hlife
  rw [handleMessage, if_pos hready] at hpush
  rcases pushValue_cases hpush with ⟨editors, hbind, -, -⟩ | ⟨registry, -, hset, -, rfl⟩ | ⟨hne, -⟩
  · -- Without an editor there is none to take the value.
    simp [EditorTree.bindValue, hnone, pure] at hbind
  · have hafter : ({ s with registry } : Session).IsConsistent := by
      refine ⟨fun hnot => absurd (hready.symm.trans hnot) (by simp), ?_⟩
      exact hconsistent.isListed.congr rfl rfl
    have hlooks : s.LooksLike { s with registry } := ⟨registry, rfl⟩
    refine ⟨fun g p hp hnodup => ?entries, hlooks.editors_turns hconsistent hafter, Iff.rfl,
      fun hadmits => ?copies⟩
    case entries => exact (isOrdered_of_turns hstart hlife).registry.exists_holdsAt hset hp hnodup
    case copies =>
      obtain ⟨p, hp, -⟩ := Option.bind_eq_some_iff.mp hset
      obtain ⟨u, hu, haligned⟩ := hstart.isAligned.turns hadmits
      obtain rfl := Option.some.inj (hu.symm.trans hlife)
      obtain ⟨g, e, q, he, hq, hqid, hholds⟩ := (haligned.inStep hready).exists_copy hp
      exact ⟨g, e, q, he, hq, hqid, hholds val⟩
  · exact absurd rfl hne

/-- The text of the id 3, which its group hides, is pushed. The entry of the group has it, and what
the editors have depends on the copy that was there. -/
theorem pushed_sampleStart :
    (new none).IsNew ∧ (new none).Admits sampleStart ∧
    ∃ s s' p, (new none).turns sampleStart = some s ∧ s.isReady = true ∧
      s.editors.get? ⟨3⟩ = none ∧ s.handleMessage (.push ⟨3⟩ (.text "blue")) = some (s', []) ∧
      s'.registry.get? ⟨1⟩ = some p ∧ ⟨3⟩ ∈ p.ids ∧ p.HoldsAt ⟨3⟩ (.text "blue") ∧
      ∃ g e q, s.editors.get? g = some e ∧ q ∈ e.param.nodes ∧ q.id = ⟨3⟩ ∧
        (s'.editors.HoldsAt ⟨3⟩ (.text "blue") ↔ q.setValue? (.text "blue") = some q) := by
  have hadmits : (new none).Admits sampleStart := by decide +kernel
  obtain ⟨s, hlife, hready, hnone, ⟨p, hp, hnodup⟩, ⟨s', problems⟩, hpush, hlength, p', hp',
      hbelow⟩ : ∃ s ∈ (new none).turns sampleStart, s.isReady = true ∧
        (s.editors.get? ⟨3⟩).isNone = true ∧ (∃ p ∈ s.registry.get? ⟨1⟩, p.ids.Nodup) ∧
        ∃ handled ∈ s.handleMessage (.push ⟨3⟩ (.text "blue")), handled.2.length = 0 ∧
          ∃ p ∈ handled.1.registry.get? ⟨1⟩, ⟨3⟩ ∈ p.ids := by decide +kernel
  obtain rfl := List.length_eq_zero_iff.mp hlength
  have hnone := Option.isNone_iff_eq_none.mp hnone
  obtain ⟨hentries, -, -, hcopies⟩ :=
    pushed_without_editor (.plain none) hlife hready hnone hpush
  obtain ⟨x, hx, hholds⟩ := hentries ⟨1⟩ p hp hnodup
  obtain rfl := Option.some.inj (hx.symm.trans hp')
  exact ⟨.plain none, hadmits, s, s', x, hlife, hready, hnone, hpush, hx, hbelow, hholds,
    hcopies hadmits⟩

/-- The editor of the group has a copy of the id too, and that is as red as before. -/
theorem not_holdsAt_sampleStart :
    (new none).Admits sampleStart ∧
    ∃ s s' e q, (new none).turns sampleStart = some s ∧ s.isReady = true ∧
      s.editors.get? ⟨3⟩ = none ∧ s.handleMessage (.push ⟨3⟩ (.text "blue")) = some (s', []) ∧
      s'.editors.get? ⟨1⟩ = some e ∧ q ∈ e.param.nodes ∧ q.id = ⟨3⟩ ∧ q.value = .text "red" ∧
      ¬ e.param.HoldsAt ⟨3⟩ (.text "blue") := by
  obtain ⟨s, hlife, hready, hnone, ⟨s', problems⟩, hpush, hlength, e, he, q, hq, hid, hvalue,
      htaken⟩ : ∃ s ∈ (new none).turns sampleStart, s.isReady = true ∧
        (s.editors.get? ⟨3⟩).isNone = true ∧
        ∃ handled ∈ s.handleMessage (.push ⟨3⟩ (.text "blue")), handled.2.length = 0 ∧
          ∃ e ∈ handled.1.editors.get? ⟨1⟩, ∃ q ∈ e.param.nodes, q.id = ⟨3⟩ ∧
            q.value = .text "red" ∧
            (q.setValue? (.text "blue")).map (·.value) = some (.text "blue") := by decide +kernel
  obtain rfl := List.length_eq_zero_iff.mp hlength
  refine ⟨by decide +kernel, s, s', e, q, hlife, hready, Option.isNone_iff_eq_none.mp hnone, hpush,
    he, hq, hid, hvalue, fun hholds => ?_⟩
  rw [hholds q hq hid, Option.map_some, hvalue] at htaken
  exact absurd htaken (by decide)

end Session

end LiveTuner
