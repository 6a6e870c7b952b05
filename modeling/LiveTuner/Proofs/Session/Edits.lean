import LiveTuner.Proofs.EditorTree.Commuting
import LiveTuner.Proofs.EditorTree.Lasting
import LiveTuner.Proofs.Session.Push
import LiveTuner.Proofs.Session.Verdict

/-!
# All of an edit or nothing

An edit of the user runs through the whole session: an editor takes it, the groups above take over
what the editor is bound to, the registry is given the value, and a message is queued. Written out
step by step, the edit comes to one of three things. It is refused, and then no step has stored
anything. It opens or closes a panel, and then one editor shows that and nothing else has happened.
Or it gives a value, and then that value is in the editor and in one message, and no other editor
has changed but the groups above.

The registry is not asked whether it takes the value.

## Main definitions

* `EditorTree.interactInPlace`, `Session.interactInPlace` — an edit, step by step
* `Editor.ShowsPanel` — the header of a panel shows whether it is open
* `Session.Flips`, `Session.Tells` — what an edit comes to that is not refused

## Main results

* `Session.carriesOut_interactInPlace` — the steps come to the edit
* `Session.edit_of_turns` — an edit is refused, flips a panel or tells a value
-/

namespace LiveTuner

open InPlace

variable {id : ParamId} {interaction : Interaction} {val : Value}

/-! ### Steps -/

namespace EditorTree

/-- Steps on the editor of an id. -/
def onEditor {α : Type} (id : ParamId) (x : InPlace Editor α) : InPlace EditorTree α := do
  let t ← get
  match t.get? id with
  | none => throw (.unknownParameter id)
  | some e => within (fun _ => e) (fun t e => t.setEditor id e) x

/-- Applies an interaction to the editor of an id. What is stored is taken over by the groups
above. -/
def interactInPlace (id : ParamId) (interaction : Interaction) :
    InPlace EditorTree (Option Value) := do
  let val? ← onEditor id (Editor.interactInPlace interaction)
  match val? with
  | none => pure none
  | some val =>
    walk fun t => t.syncAncestors id
    pure (some val)

theorem setEditor_self {t : EditorTree} {e : Editor} (h : t.get? id = some e) :
    t.setEditor id e = t := by
  refine eq_of_get?_eq ⟨_, rfl⟩ fun z => ?_
  rw [get?_setEditor]
  split
  · next hz => rw [← hz, h]
  · rfl

theorem carriesOut_interactInPlace (id : ParamId) (interaction : Interaction) :
    (interactInPlace id interaction).CarriesOut fun t => t.interact id interaction := by
  intro t
  change _ = (t.interact id interaction).map (settle t)
  rw [interactInPlace, outcome_bind, onEditor, outcome_get_bind, interact]
  cases he : t.get? id with
  | none => rfl
  | some e =>
    have hsteps := Editor.carriesOut_interactInPlace interaction e
    simp only [outcome_within, hsteps]
    cases e.interact interaction with
    | error problem =>
      -- The editor is put back as it was.
      simp [setEditor_self he]
    | ok result =>
      obtain ⟨e', val?⟩ := result
      cases val? with
      | none => rfl
      | some val =>
        simp only [Option.map_some, settle_ok, Option.bind_some, outcome_bind, outcome_walk]
        cases (t.setEditor id e').syncAncestors id with
        | none => rfl
        | some t' => rfl

end EditorTree

namespace Session

/-- Applies an edit of the user. A value that comes of it is given to the registry, whatever that
makes of it, and is queued. -/
def interactInPlace (id : ParamId) (interaction : Interaction) :
    InPlace Session (Option Value) := do
  let s ← get
  if s.state = .disconnected then throw .notConnected
  else
    let val? ← within Session.editors (fun s editors => { s with editors })
      (EditorTree.interactInPlace id interaction)
    match val? with
    | none => pure none
    | some val =>
      let _ ← within Session.registry (fun s registry => { s with registry })
        (Registry.setValueInPlace id val)
      modify fun s => s.send (.update id val)
      pure (some val)

theorem carriesOut_interactInPlace (id : ParamId) (interaction : Interaction) :
    (interactInPlace id interaction).CarriesOut fun s => s.interact id interaction := by
  intro s
  change _ = (s.interact id interaction).map (settle s)
  rw [interactInPlace, outcome_get_bind, interact]
  split_ifs
  · rfl
  · have hsteps := EditorTree.carriesOut_interactInPlace id interaction s.editors
    simp only [outcome_bind, outcome_within, hsteps]
    cases s.editors.interact id interaction with
    | none => rfl
    | some result =>
      rcases result with problem | ⟨editors, _ | val⟩
      · rfl
      · rfl
      · simp only [Option.map_some, settle_ok, Option.bind_some, outcome_bind, outcome_within,
          Registry.outcome_setValueInPlace]
        rfl

end Session

/-! ### Panels -/

/-- The editor fits its id. If it has a panel, the header shows whether the panel is open. -/
structure Editor.ShowsPanel (e : Editor) (id : ParamId) : Prop where
  /-- It fits its id. -/
  fits : e.Fits id
  /-- The header of the panel. -/
  header : hasPanel e.kind = true → ∃ title panel, e.view.widget = .accordion title e.expanded panel

namespace Editor

variable {e e' : Editor}

/-- Once painted, an editor with a panel shows it. -/
theorem exists_widget_of_hasPanel (hkind : e.kind = e.param.kind)
    (hpanel : hasPanel e.kind = true) :
    ∃ title panel, e.widget = .accordion title e.expanded panel := by
  cases hp : e.param with
  | group i name params hidden =>
    rw [hp] at hkind
    exact ⟨e.title, groupPanel (panelMounts e.param), by simp [widget, hkind, hp, Param.kind]⟩
  | leaf i name control =>
    rw [hp] at hkind
    cases control with
    | vector v =>
      refine ⟨e.title, vectorPanel v, ?_⟩
      simp [widget, hkind, hp, Param.kind, Control.kind, Param.control?]
    | choice | scalar | flag | text | unresolved =>
      simp [hkind, Param.kind, Control.kind, hasPanel] at hpanel

/-- A stored value leaves the header alone. -/
theorem Stored.exists_widget (h : e.Stored e') {title : String} {expanded : Bool}
    {panel : List PanelItem} (hwidget : e.view.widget = .accordion title expanded panel) :
    ∃ panel', e'.view.widget = .accordion title expanded panel' := by
  cases h with
  | choice hp val => exact ⟨panel, by simp [storeChoice, hwidget]⟩
  | scalar hp x => exact ⟨panel, by simp [storeScalar, hwidget]⟩
  | @vector _ _ _ xs hp hlength => exact ⟨movePanel panel xs, by simp [storeVector, hwidget]⟩
  | flag hp b => exact ⟨panel, by simp [storeFlag, hwidget]⟩
  | text hp s => exact ⟨panel, by simp [storeText, hwidget]⟩

end Editor

namespace EditorTree

theorem allows_showsPanel :
    Allows (fun id e => e.ShowsPanel id) (fun _ _ => True) fun _ => True where
  panel _ _ _ _ := ⟨trivial, trivial⟩
  created _ _ _ := ⟨⟨rfl, rfl⟩, Editor.exists_widget_of_hasPanel rfl⟩
  bound _ _ _ he hkind := by
    have hfits := he.fits.kind_eq.trans hkind
    exact ⟨⟨rfl, hfits⟩, Editor.exists_widget_of_hasPanel hfits⟩

theorem outlasts_showsPanel : Outlasts (fun id e => e.ShowsPanel id) fun _ => True where
  -- A copy in the definition is not shown, a value is shown in the panel, and the mark in the
  -- header follows the panel.
  kind_eq _ _ h := h.fits.kind_eq
  patched z x id e _ h := by
    refine ⟨h.fits.patchEditor x.param, ?_⟩
    rw [patchEditor]
    split
    · exact h.header
    · exact h.header
  stored id e e' h hstored := by
    refine ⟨h.fits.store hstored, fun hpanel => ?_⟩
    rw [hstored.kind_eq] at hpanel
    obtain ⟨title, panel, hwidget⟩ := h.header hpanel
    rw [hstored.expanded_eq]
    exact ⟨title, hstored.exists_widget hwidget⟩
  toggled id e expanded h hpanel := by
    refine ⟨⟨h.fits.id_eq, h.fits.kind_eq⟩, fun _ => ?_⟩
    obtain ⟨title, panel, hwidget⟩ := h.header hpanel
    exact ⟨title, panel, by simp [Editor.setExpanded, hwidget]⟩
  hosted _ _ _ _ _ := trivial

end EditorTree

/-! ### What an edit comes to -/

namespace Session

variable {s s' start : Session} {life : List Turn} {now : Turn} {val? : Option Value}
  {outbox : List Outbound} {problem : Problem}

/-- Nothing that happens to a session closes its outbox. -/
theorem outboxOpen_of_turn (h : s.turn now = some s') : s'.outboxOpen = s.outboxOpen := by
  have hreselects : ∀ {t : Session} {sent : List Outbound}, s.Reselects t sent →
      (t.sendAll sent).outboxOpen = s.outboxOpen := by
    intro t sent hreselects
    rw [sendAll_eq]
    cases hreselects with
    | keeps | selects | deselects => rfl
  cases now with
  | connect | disconnect =>
    obtain rfl := Option.some.inj h
    rfl
  | incident incident =>
    cases outcome_of_handle h with
    | stays | loads => rfl
    | lists hconnected names =>
      obtain ⟨t, sent, hsent, ht⟩ := reselects_updateNodes hconnected names
      exact ht ▸ hreselects hsent
    | redefines hready definitions hredefine =>
      obtain ⟨editors, rfl⟩ := redefine_eq hredefine
      rfl
    | pushes hready id val hpush =>
      obtain ⟨registry, editors, rfl⟩ := pushValue_eq hpush
      rfl
    | selects node hselect =>
      obtain ⟨t, sent, hsent, rfl⟩ := reselects_selectNode hselect
      exact hreselects hsent
    | edits id interaction hinteract =>
      obtain ⟨editors, -, ⟨-, rfl⟩ | ⟨val, -, rfl⟩⟩ := interact_eq_ok hinteract
      · rfl
      · rw [send_eq]

theorem outboxOpen_of_turns (hstart : start.IsNew) (hlife : start.turns life = some s) :
    s.outboxOpen = true := by
  have hopen : start.outboxOpen = true := by
    cases hstart with
    | plain | pinned => rfl
  apply kept_by_turns (P := fun u => u.outboxOpen = true) ?_ hopen hlife
  intro u now v hu hturn
  exact (outboxOpen_of_turn hturn).trans hu

/-- A panel has been opened or closed, its header shows that, and nothing else has changed. -/
def Flips (s : Session) (id : ParamId) (s' : Session) : Prop :=
  ∃ e title panel, s.editors.get? id = some e ∧
    e.view.widget = .accordion title e.expanded panel ∧
    s' = { s with
      editors := s.editors.setEditor id { e with
        expanded := !e.expanded
        view := { e.view with widget := .accordion title (!e.expanded) panel } } }

/-- A value has been told: the registry has been given it, one message is queued, and nothing but
editors has changed otherwise. The editor of the id has the value. Of the others, the groups above
have exchanged the copies that they hold, and the rest is as it was. -/
structure Tells (s : Session) (id : ParamId) (val : Value) (s' : Session) : Prop where
  /-- One message is queued. -/
  eq_with : ∃ editors,
    s' = { s with
      registry := (s.registry.setValue? id val).getD s.registry
      editors
      outbox := s.outbox ++ [.update id val] }
  /-- The editors. -/
  editors : ∃ e above, e.param.value = val ∧ s.editors.Climbs id above ∧
    (∃ editors, s'.editors = { s.editors with editors }) ∧
    ∀ z, s'.editors.get? z =
      if z = id then some e
      else if z ∈ above then (s.editors.get? z).map (EditorTree.patchEditor e.param)
      else s.editors.get? z

/-- An edit that is taken flips a panel or tells a value. -/
theorem flips_or_tells (hpanels : s.editors.Satisfies (fun id e => e.ShowsPanel id) fun _ _ => True)
    (hopen : s.outboxOpen = true) (h : s.interact id interaction = some (.ok (s', val?))) :
    (val? = none ∧ s.Flips id s') ∨ ∃ val, val? = some val ∧ s.Tells id val s' := by
  rw [interact] at h
  split_ifs at h
  · cases h
  obtain ⟨result, hresult, h⟩ := Option.bind_eq_some_iff.mp h
  have hkind := fun e he => (hpanels.editor id e he).fits.kind_eq
  rcases EditorTree.interact_cases hkind interaction with ⟨problem, heq⟩ |
    ⟨e, he, hpanel, -, heq⟩ | ⟨e, e', i, name, c, c', he, -, -, -, hp', -, heq⟩
  · cases heq.symm.trans hresult
    cases h
  · -- The panel shows under a header, of which only the mark changes.
    cases heq.symm.trans hresult
    cases h
    obtain ⟨title, panel, hwidget⟩ := (hpanels.editor id e he).header hpanel
    refine Or.inl ⟨rfl, e, title, panel, he, hwidget, ?_⟩
    simp [Editor.setExpanded, hwidget]
  · -- The value is stored, and taken over by the groups above, before it is told.
    obtain ⟨t, ht, heq⟩ := Option.map_eq_some_iff.mp (heq.symm.trans hresult)
    cases heq
    cases h
    obtain ⟨above, hclimbs, heq, hget⟩ := EditorTree.get?_of_syncAncestors_setEditor ht
    have hsend : ∀ registry editors,
        ({ s with registry, editors } : Session).send (.update id c'.value) =
          { s with registry, editors, outbox := s.outbox ++ [.update id c'.value] } :=
      fun _ _ => if_pos hopen
    rw [hsend]
    refine Or.inr ⟨c'.value, rfl, ⟨_, rfl⟩, e', above, ?_, hclimbs, heq, hget⟩
    rw [hp']
    rfl

/-- A new session has lived any life, and any of its messages may have been written since. The user
edits a parameter, and the edit, carried out step by step, comes to an end. If it is refused, the
session is as it was. If it gives no value, it has opened or closed the panel of one editor, whose
header shows that, and nothing else has changed. If it gives a value, exactly that value is queued
for the parameter, the editor of the parameter has it, and no other editor has changed but the
groups above. -/
theorem edit_of_turns (hstart : start.IsNew) (hlife : start.turns life = some { s with outbox })
    (id : ParamId) (interaction : Interaction) :
    (interactInPlace id interaction).outcome s = (s.interact id interaction).map (settle s) ∧
    (∀ problem s', (interactInPlace id interaction).outcome s = some (.error problem, s') →
      s' = s) ∧
    (∀ s', (interactInPlace id interaction).outcome s = some (.ok none, s') → s.Flips id s') ∧
    ∀ val s', (interactInPlace id interaction).outcome s = some (.ok (some val), s') →
      s.Tells id val s' := by
  have hsteps := carriesOut_interactInPlace id interaction
  have hopen : ({ s with outbox } : Session).outboxOpen = true := outboxOpen_of_turns hstart hlife
  -- That headers show whether their panels are open has lasted all life.
  have hpanels : s.editors.Satisfies (fun id e => e.ShowsPanel id) fun _ _ => True := by
    have hlasts := lasts_satisfies EditorTree.allows_showsPanel EditorTree.outlasts_showsPanel
      fun _ _ => trivial
    have hnew : start.Has (fun _ => True)
        (·.Satisfies (fun id e => e.ShowsPanel id) fun _ _ => True) := by
      cases hstart with
      | plain | pinned => exact ⟨trivial, EditorTree.Satisfies.clear .empty⟩
    exact (hlasts.turns hnew hlife).editors
  -- The steps come to the edit, so each of their ends is one of the edit.
  refine ⟨hsteps s, ?refused, ?flipped, ?told⟩
  case refused =>
    intro problem s' h
    rcases hsteps.cases h with ⟨a, ha, -⟩ | ⟨problem', -, -, hs'⟩
    · cases ha
    · exact hs'
  case flipped =>
    intro s' h
    rcases hsteps.cases h with ⟨a, ha, hinteract⟩ | ⟨problem, hproblem, -, -⟩
    · cases ha
      rcases flips_or_tells hpanels hopen hinteract with ⟨-, hflips⟩ | ⟨val, hval, -⟩
      · exact hflips
      · cases hval
    · cases hproblem
  case told =>
    intro val s' h
    rcases hsteps.cases h with ⟨a, ha, hinteract⟩ | ⟨problem, hproblem, -, -⟩
    · cases ha
      rcases flips_or_tells hpanels hopen hinteract with ⟨hval, -⟩ | ⟨val', hval, htells⟩
      · cases hval
      · obtain rfl := Option.some.inj hval
        exact htells
    · cases hproblem

/-- With nothing left to write, the integer of the id 2 is edited. The value is told. -/
theorem edit_sampleStart :
    (new none).IsNew ∧
    ∃ s s' sent, (new none).turns sampleStart = some { s with outbox := sent } ∧ s.outbox = [] ∧
      (interactInPlace ⟨2⟩ (.setValue (.int 5))).outcome s = some (.ok (some (.int 5)), s') ∧
      s.Tells ⟨2⟩ (.int 5) s' := by
  obtain ⟨u, hlife, result, hinteract, hval⟩ : ∃ u ∈ (new none).turns sampleStart,
      ∃ result ∈ ({ u with outbox := [] } : Session).interact ⟨2⟩ (.setValue (.int 5)),
        result.toOption.bind (·.2) = some (.int 5) := by decide +kernel
  obtain ⟨⟨s', val?⟩, rfl⟩ : ∃ taken, result = .ok taken := by
    cases result with
    | ok taken => exact ⟨taken, rfl⟩
    | error problem => cases hval
  obtain rfl : val? = some (.int 5) := hval
  have hedit := edit_of_turns (s := { u with outbox := [] }) (.plain none) hlife ⟨2⟩
    (.setValue (.int 5))
  have htold : (interactInPlace ⟨2⟩ (.setValue (.int 5))).outcome { u with outbox := [] } =
      some (.ok (some (.int 5)), s') := by
    rw [hedit.1, hinteract]
    rfl
  exact ⟨.plain none, { u with outbox := [] }, s', u.outbox, hlife, rfl, htold,
    hedit.2.2.2 _ _ htold⟩

end Session

end LiveTuner
