import LiveTuner.Proofs.Param.Controls
import LiveTuner.Proofs.Param.Sending
import LiveTuner.Proofs.Session.Edits
import LiveTuner.Proofs.Session.Vectors

/-!
# What a session sends

Between the definition that comes in a frame and the value that goes out in another, a control
passes through many hands: it is copied into the groups above, exchanged when one of these is
defined anew, pushed to and edited. The type in which its value is sent was noted at the start. None
of all this writes down another one, so the type is that of a definition which the node has sent for
the same id.

## Main definitions

* `Control.ComesFrom`, `Editor.ComesFrom` — a control came from one of some definitions, and so did
  all controls in an editor
* `Session.received` — the definitions that have come in, and all those in them
* `Session.Queues` — messages have been queued

## Main results

* `EditorTree.outlasts_comesFrom` — whatever becomes of an editor, its controls came from the node
* `Session.exists_queues` — only edits queue updates
* `Session.sends_of_turns` — each update has the form that the definition of its id asks for
-/

namespace LiveTuner

variable {D : List Definition} {id : ParamId} {val : Value}

/-- Unless it is unresolved, the control came from one of the definitions, with its id. -/
def Control.ComesFrom (D : List Definition) (id : ParamId) (c : Control) : Prop :=
  c.kind ≠ .unresolved → ∃ d ∈ D, d.id = id ∧ d.Bears c

theorem Control.ComesFrom.revalued {c c' : Control} (h : c.ComesFrom D id) (hc : c.Revalued c') :
    c'.ComesFrom D id := by
  intro hkind
  obtain ⟨d, hd, hid, hbears⟩ := h (hc.kind_eq ▸ hkind)
  exact ⟨d, hd, hid, hbears.revalued hc⟩

/-- The controls of a parameter came from the nodes of its definition. -/
theorem Definition.allControls_resolveLeniently {d : Definition} (hd : ∀ n ∈ d.nodes, n ∈ D) :
    d.resolveLeniently.AllControls (Control.ComesFrom D) := by
  intro q hq c hc hkind
  rw [nodes_resolveLeniently] at hq
  obtain ⟨n, hn, rfl⟩ := List.mem_map.mp hq
  refine ⟨n, hd n hn, n.id_resolveLeniently.symm, ?_⟩
  cases hparams : n.params with
  | some members =>
    rw [resolveLeniently_of_params hparams] at hc
    cases hc
  | none =>
    rw [resolveLeniently_of_params_eq_none hparams] at hc
    cases hcontrol : n.control with
    | ok c₀ =>
      rw [hcontrol] at hc
      obtain rfl := Option.some.inj hc
      exact bears_of_control hparams hcontrol
    | error cause =>
      -- What describes no control has come as unresolved.
      rw [hcontrol] at hc
      obtain rfl := Option.some.inj hc
      exact absurd rfl hkind

/-! ### Editors -/

/-- An editor fits its id, and all controls in its definition came from definitions. -/
structure Editor.ComesFrom (D : List Definition) (e : Editor) (id : ParamId) : Prop where
  /-- It fits its id. -/
  fits : e.Fits id
  /-- The controls. -/
  controls : e.param.AllControls (Control.ComesFrom D)

/-- An edited choice has a value that is as good as one of its options. -/
theorem Editor.exists_option_of_interact {e e' : Editor} {interaction : Interaction} {i : ParamId}
    {name : String} {c : Control} {ch : Choice} (hp : e.param = .leaf i name c)
    (hkind : e.kind = c.kind) (hc : c.Revalued (.choice ch))
    (h : e.interact interaction = .ok (e', some ch.val)) :
    ∃ option ∈ ch.options, option = ch.val ∨ option.same ch.val = true := by
  cases c with
  | choice ch₀ =>
    rw [← Control.Settings.choice.inj hc.settings_eq]
    rw [interact, hkind] at h
    exact exists_option_of_interactChoice (by rw [hp]; rfl) h
  | scalar | vector | flag | text | unresolved => exact hc.elim

namespace EditorTree

theorem allows_comesFrom : Allows (fun id e => e.ComesFrom D id) (fun _ _ => True)
    (·.AllControls (Control.ComesFrom D)) where
  panel _ _ hp hc := ⟨hp.of_mem_nodes (Param.mem_nodes_of_mem_panel hc), trivial⟩
  created _ _ hm := ⟨⟨rfl, rfl⟩, hm⟩
  bound _ _ hm he hkind := ⟨⟨rfl, he.fits.kind_eq.trans hkind⟩, hm⟩

theorem outlasts_comesFrom : Outlasts (fun id e => e.ComesFrom D id)
    (·.AllControls (Control.ComesFrom D)) where
  kind_eq _ _ h := h.fits.kind_eq
  patched _ x _ _ hx h := by
    refine ⟨h.fits.patchEditor x.param, ?_⟩
    rw [param_patchEditor]
    exact h.controls.replaceDescendant hx.controls
  stored id e e' h hstored := by
    refine ⟨h.fits.store hstored, ?_⟩
    obtain ⟨i, name, c, c', hp, hp', hc⟩ := hstored.exists_revalued
    have hfrom := h.controls
    rw [hp, Param.allControls_leaf_iff] at hfrom
    rw [hp', Param.allControls_leaf_iff]
    exact hfrom.revalued hc
  toggled _ _ _ h _ := ⟨⟨h.fits.id_eq, h.fits.kind_eq⟩, h.controls⟩
  hosted _ _ _ h hp := h.controls.replaceDescendant hp

/-- The controls in the definition of every editor came from definitions. -/
abbrev ComesFrom (D : List Definition) (t : EditorTree) : Prop :=
  t.Satisfies (fun id e => e.ComesFrom D id) fun _ _ => True

end EditorTree

namespace Session

variable {s s' start : Session} {life : List Turn} {now : Turn} {outbox : List Outbound}
  {interaction : Interaction}

/-! ### Lives -/

/-- The definitions that have come in, and all those in them. -/
def received (life : List Turn) : List Definition :=
  (life.flatMap Turn.definitions).flatMap Definition.nodes

theorem comesFrom_of_turns (hstart : start.IsNew) (hlife : start.turns life = some s) :
    s.editors.ComesFrom (received life) := by
  have hlasts := lastsAmong_satisfies (EditorTree.allows_comesFrom (D := received life))
    EditorTree.outlasts_comesFrom
  have hnew : start.Has (fun _ => True) (EditorTree.ComesFrom (received life)) := by
    cases hstart with
    | plain | pinned => exact ⟨trivial, EditorTree.Satisfies.clear .empty⟩
  refine (hlasts.turns (fun turn hturn d hd => ?_) hnew hlife).editors
  refine Definition.allControls_resolveLeniently fun n hn => ?_
  exact List.mem_flatMap.mpr ⟨d, List.mem_flatMap.mpr ⟨turn, hturn, hd⟩, hn⟩

/-! ### Updates -/

/-- The messages have been queued, and updates among them come of an edit. -/
structure Queues (s s' : Session) (queued : List Outbound) : Prop where
  /-- They are behind what was queued before. -/
  outbox_eq : s'.outbox = s.outbox ++ queued
  /-- An update tells the value that an edit has come to. -/
  update : ∀ id val, .update id val ∈ queued →
    ∃ interaction, s.interact id interaction = some (.ok (s', some val))

theorem queues_nil (h : s'.outbox = s.outbox) : s.Queues s' [] :=
  ⟨by simp [h], by simp⟩

/-- With a selection no update is queued. -/
theorem Reselects.queues {t : Session} {sent : List Outbound} (hopen : s.outboxOpen = true)
    (h : s.Reselects t sent) : s.Queues (t.sendAll sent) sent := by
  rw [sendAll_eq]
  cases h with
  | keeps | selects | deselects => exact ⟨if_pos hopen, by simp⟩

/-- Whatever happens queues messages, and only edits queue updates. -/
theorem exists_queues (hopen : s.outboxOpen = true) (hturn : s.turn now = some s') :
    ∃ queued, s.Queues s' queued := by
  cases now with
  | connect | disconnect =>
    obtain rfl := Option.some.inj hturn
    exact ⟨[], queues_nil rfl⟩
  | incident incident =>
    cases outcome_of_handle hturn with
    | stays | loads => exact ⟨[], queues_nil rfl⟩
    | lists hconnected names =>
      obtain ⟨t, sent, hsent, ht⟩ := reselects_updateNodes hconnected names
      exact ⟨sent, ht ▸ hsent.queues hopen⟩
    | redefines hready definitions hredefine =>
      obtain ⟨editors, rfl⟩ := redefine_eq hredefine
      exact ⟨[], queues_nil rfl⟩
    | pushes hready id val hpush =>
      obtain ⟨registry, editors, rfl⟩ := pushValue_eq hpush
      exact ⟨[], queues_nil rfl⟩
    | selects node hselect =>
      obtain ⟨t, sent, hsent, rfl⟩ := reselects_selectNode hselect
      exact ⟨sent, hsent.queues hopen⟩
    | edits id interaction hinteract =>
      obtain ⟨editors, -, ⟨-, rfl⟩ | ⟨val, rfl, hs'⟩⟩ := interact_eq_ok hinteract
      · exact ⟨[], queues_nil rfl⟩
      · refine ⟨[.update id val], ?_, fun id' val' hmem => ?_⟩
        · rw [hs', send_eq]
          exact if_pos hopen
        · obtain ⟨rfl, rfl⟩ := Outbound.update.inj (List.mem_singleton.mp hmem)
          exact ⟨interaction, hinteract⟩

/-- The value that an edit tells has the form that the definition of the edited control asks for. -/
theorem exists_sends_of_interact (hfrom : s.editors.ComesFrom D)
    (h : s.interact id interaction = some (.ok (s', some val))) :
    ∃ e e' name c c', s.editors.get? id = some e ∧ e.param = .leaf id name c ∧ e.kind = c.kind ∧
      s'.editors.get? id = some e' ∧ e'.param = .leaf id name c' ∧ c.Revalued c' ∧
      ∃ d ∈ D, d.id = id ∧ d.Bears c ∧ ∀ w, d.Sends c' w ↔ w = val := by
  obtain ⟨editors, hedit, ⟨⟨⟩, -⟩ | ⟨_, ⟨⟩, hs'⟩⟩ := interact_eq_ok h
  have hkind := fun e he => (hfrom.editor id e he).fits.kind_eq
  rcases EditorTree.interact_cases hkind interaction with ⟨problem, heq⟩ |
    ⟨e, he, hpanel, -, heq⟩ | ⟨e, e', i, name, c, c', he, htaken, -, hp, hp', hc, heq⟩
  · cases heq.symm.trans hedit
  · cases heq.symm.trans hedit
  · obtain ⟨t, ht, heq⟩ := Option.map_eq_some_iff.mp (heq.symm.trans hedit)
    cases heq
    obtain ⟨above, -, -, hget⟩ := EditorTree.get?_of_syncAncestors_setEditor ht
    have hedited := hfrom.editor id e he
    obtain rfl : i = id := by rw [← hedited.fits.id_eq, hp, Param.id_leaf]
    have hkind : e.kind = c.kind := by rw [hedited.fits.kind_eq, hp, Param.kind]
    have hcontrol := hedited.controls
    rw [hp, Param.allControls_leaf_iff] at hcontrol
    -- A control that takes a value is not unresolved, so it came from a definition.
    obtain ⟨d, hd, hid, hbears⟩ := hcontrol hc.kind_ne_unresolved
    refine ⟨e, e', name, c, c', he, hp, hkind, ?_, hp', hc, d, hd, hid, hbears, fun w => ?_⟩
    · rw [hs', send_eq]
      exact (hget i).trans (if_pos rfl)
    · refine (hbears.revalued hc).sends_iff ?_
      rintro ch rfl
      exact Editor.exists_option_of_interact hp hkind hc htaken

/-- A new session has lived any life, and any of its messages may have been written since. Whatever
happens next, each update that is queued is one of a parameter that is neither a group nor
unresolved. Its editor is bound to a control that came from a definition which the node has sent for
that id, and the control has a new value. The update has the form that this definition asks for with
the new value, and nothing else has. -/
theorem sends_of_turns (hstart : start.IsNew) (hlife : start.turns life = some { s with outbox })
    (hturn : s.turn now = some s') :
    ∃ queued, s'.outbox = s.outbox ++ queued ∧ ∀ id val, .update id val ∈ queued →
      ∃ e e' name c c', s.editors.get? id = some e ∧ e.param = .leaf id name c ∧
        e.kind = c.kind ∧ e.kind ≠ .group ∧ e.kind ≠ .unresolved ∧
        s'.editors.get? id = some e' ∧ e'.param = .leaf id name c' ∧ c.Revalued c' ∧
        ∃ d ∈ received life, d.id = id ∧ d.Bears c ∧ ∀ w, d.Sends c' w ↔ w = val := by
  have hopen := outboxOpen_of_turns hstart hlife
  have hfrom := comesFrom_of_turns hstart hlife
  obtain ⟨queued, houtbox, hupdates⟩ := exists_queues (s := s) hopen hturn
  refine ⟨queued, houtbox, fun id val hmem => ?_⟩
  obtain ⟨interaction, hinteract⟩ := hupdates id val hmem
  obtain ⟨e, e', name, c, c', he, hp, hkind, he', hp', hc, hd⟩ :=
    exists_sends_of_interact (s := s) hfrom hinteract
  refine ⟨e, e', name, c, c', he, hp, hkind, ?_, ?_, he', hp', hc, hd⟩
  · rw [hkind]
    exact c.kind_ne_group
  · rw [hkind]
    exact hc.kind_ne_unresolved

/-- The node has sent three integers, and the user gives one of them half a unit. -/
def sampleFraction : List Turn :=
  [.connect, .incident (.frame sampleListing), .incident (.frame sampleTint),
    .incident (.interact ⟨2⟩ (.setComponent 1 (.ofRatio false 1 2)))]

/-- The three numbers have gone out as they are; once the user has made them whole again, they go
out as integers. -/
theorem sends_after_sampleFraction :
    (new none).IsNew ∧ ∃ s s' c' d, (new none).turns sampleFraction = some s ∧
      s.turn (.incident (.interact ⟨2⟩ (.setComponent 1 (.ofInt 7)))) = some s' ∧
      s.outbox.getLast? = some (.update ⟨2⟩ (.reals [.ofInt 1, .ofRatio false 1 2, .ofInt 3])) ∧
      .update ⟨2⟩ (.ints [1, 7, 3]) ∈ s'.outbox ∧
      d ∈ received sampleFraction ∧ d.Sends c' (.ints [1, 7, 3]) := by
  have hrun : ((new none).turns sampleFraction).bind (fun s =>
      (s.turn (.incident (.interact ⟨2⟩ (.setComponent 1 (.ofInt 7))))).map fun s' =>
        (s.outbox.getLast?, s'.outbox.drop s.outbox.length)) =
      some (some (.update ⟨2⟩ (.reals [.ofInt 1, .ofRatio false 1 2, .ofInt 3])),
        [.update ⟨2⟩ (.ints [1, 7, 3])]) := by decide +kernel
  obtain ⟨s, hlife, hs⟩ := Option.bind_eq_some_iff.mp hrun
  obtain ⟨s', hturn, hfields⟩ := Option.map_eq_some_iff.mp hs
  obtain ⟨hlast, hdrop⟩ := Prod.mk.inj hfields
  obtain ⟨queued, houtbox, hupdates⟩ := sends_of_turns (.plain none) hlife hturn
  obtain rfl : queued = [.update ⟨2⟩ (.ints [1, 7, 3])] := by
    rw [houtbox, List.drop_left] at hdrop
    exact hdrop
  obtain ⟨e, e', name, c, c', -, -, -, -, -, -, -, -, d, hd, -, -, hsends⟩ :=
    hupdates ⟨2⟩ _ List.mem_cons_self
  refine ⟨.plain none, s, s', c', d, hlife, hturn, hlast, ?_, hd, (hsends _).mpr rfl⟩
  rw [houtbox]
  exact List.mem_append_right _ List.mem_cons_self

end Session

end LiveTuner
