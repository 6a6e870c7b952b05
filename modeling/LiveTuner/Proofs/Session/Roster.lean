import LiveTuner.Proofs.EditorTree.Roster
import LiveTuner.Proofs.Session.Lasting
import LiveTuner.Proofs.Session.Returning

/-!
# Editors told apart

In the life of a session, editors come and go with every selection, every redefinition and every
frame that loads definitions, and an id that is repeated may have its editor replaced in the middle
of a redefinition. Whoever holds on to an editor goes by its serial number. That is safe: no number
is given to two editors, also not to editors of different nodes or different connections, and a
number does not change hands.

A handler reaches the editors by loads and changes. Which these are is written down here turn by
turn, and what happens to single editors follows from it.

## Main definitions

* `Session.turnCalls`, `Session.lifeCalls` — the loads and changes that turns make
* `Session.events` — what happens to single editors in the turns of a life

## Main results

* `Session.calls_turnCalls`, `Session.calls_lifeCalls` — turns do nothing else to the editors
* `Session.undergoes_of_turns` — the roster undergoes the events of a life
* `Session.editors_told_apart` — no two editors have the same number, and an editor keeps its own
-/

namespace LiveTuner

namespace Session

open EditorTree (Call)

variable {s s' t start : Session} {id : ParamId} {val : Value} {params : List Param}
  {problems : List Problem} {sent : List Outbound} {now : Turn} {life : List Turn}

/-! ### Loads and changes -/

/-- When the selection changes, the editors are dropped, that is, nothing is loaded in their
place. -/
def switchCalls (before after : NodeState) : List Call :=
  if after = before then [] else [.load []]

/-- The loads and changes that a message makes. -/
def messageCalls (s : Session) : Inbound → List Call
  | .nodes names => switchCalls s.state (s.updateNodes names).1.state
  | .unrecognized _ => []
  | .definitions definitions _ =>
    let params := definitions.map Definition.resolveLeniently
    if s.isAwaiting && s.registry.isEmpty then [.load params]
    else if s.isReady then params.map fun p => .change (.reconcile p)
    else []
  | .push id val =>
    if s.isReady && s.editors.contains id then [.change (.bindValue id val)] else []
  | .other _ => []

/-- The loads and changes that a turn makes. -/
def turnCalls (s : Session) : Turn → List Call
  | .connect => [.load []]
  | .disconnect => [.load []]
  | .incident (.frame payload) =>
    if s.state = .disconnected then []
    else
      match Inbound.classify payload with
      | .ok message => s.messageCalls message
      | .error _ => []
  | .incident (.select node) =>
    match s.selectNode node with
    | .ok (t, _) => switchCalls s.state t.state
    | .error _ => []
  | .incident (.interact id interaction) =>
    if s.state = .disconnected then [] else [.change (.interact id interaction)]

/-- The loads and changes that turns make, one after the other. -/
def lifeCalls (s : Session) : List Turn → List Call
  | [] => []
  | now :: later =>
    s.turnCalls now ++
      match s.turn now with
      | some t => t.lifeCalls later
      | none => []

/-- What happens to single editors in the turns of a life. -/
def events (s : Session) (life : List Turn) : List Roster.Event :=
  s.editors.callsEvents (s.lifeCalls life)

theorem calls_change (u : EditorTree) (c : EditorTree.Change) :
    u.calls [.change c] = u.change c := by
  simp [EditorTree.calls, EditorTree.call]

theorem calls_switchCalls (h : s.Reselects t sent) :
    s.editors.calls (switchCalls s.state (t.sendAll sent).state) =
      some (t.sendAll sent).editors := by
  have hswitch : ∀ after, after ≠ s.state →
      s.editors.calls (switchCalls s.state after) = some s.editors.clear := by
    intro after hne
    rw [switchCalls, if_neg hne]
    rfl
  rw [sendAll_eq]
  cases h with
  | keeps available advertised =>
    rw [switchCalls, if_pos rfl]
    rfl
  | selects available advertised node _ _ hnew =>
    refine hswitch _ fun heq => hnew ?_
    rw [selected?, ← heq]
    rfl
  | deselects available advertised hselected =>
    refine hswitch _ fun heq => hselected ?_
    rw [selected?, ← heq]
    rfl

/-- A definition that is refused leaves the editors to the next. -/
theorem calls_reconcileAll {u u' : EditorTree} (h : reconcileAll u params = some (u', problems)) :
    u.calls (params.map fun p => .change (.reconcile p)) = some u' := by
  induction params generalizing u problems with
  | nil =>
    obtain ⟨rfl, -⟩ := Prod.mk.inj (Option.some.inj h)
    rfl
  | cons p rest ih =>
    obtain ⟨result, hresult, h⟩ := Option.bind_eq_some_iff.mp h
    have hfirst : u.call (.change (.reconcile p)) = some (result.toOption.getD u) := by
      rw [EditorTree.call, EditorTree.change, hresult]
      cases result <;> rfl
    rw [List.map_cons, EditorTree.calls, List.foldlM_cons, hfirst]
    cases result with
    | ok u₁ => exact ih h
    | error problem =>
      obtain ⟨⟨u₂, later⟩, hlater, h⟩ := Option.bind_eq_some_iff.mp h
      obtain ⟨rfl, -⟩ := Prod.mk.inj (Option.some.inj h)
      exact ih hlater

theorem calls_pushValue (h : s.pushValue id val = some (s', problems)) :
    s.editors.calls (if s.editors.contains id then [.change (.bindValue id val)] else []) =
      some s'.editors := by
  rw [pushValue] at h
  split_ifs at h ⊢ with hlive
  · obtain ⟨result, hresult, h⟩ := Option.bind_eq_some_iff.mp h
    rw [calls_change, EditorTree.change, hresult]
    cases result with
    | ok editors => exact eq_of_some_mk_eq h ▸ rfl
    | error problem => exact eq_of_some_mk_eq h ▸ rfl
  · -- Without an editor, the value is the registry's alone.
    split at h
    · exact eq_of_some_mk_eq h ▸ rfl
    · split at h
      · exact eq_of_some_mk_eq h ▸ rfl
      · exact eq_of_some_mk_eq h ▸ rfl

theorem calls_messageCalls {message : Inbound} (hconnected : s.state ≠ .disconnected)
    (h : s.handleMessage message = some (s', problems)) :
    s.editors.calls (s.messageCalls message) = some s'.editors := by
  cases message with
  | nodes names =>
    obtain ⟨t, sent, hreselects, ht⟩ := reselects_updateNodes hconnected names
    have heq : (s.updateNodes names).1 = s' := by rw [Option.some.inj h]
    rw [messageCalls, ← heq, ht]
    exact calls_switchCalls hreselects
  | unrecognized _ => exact eq_of_some_mk_eq h ▸ rfl
  | definitions definitions rejected =>
    rw [handleMessage] at h
    rw [messageCalls]
    split_ifs at h ⊢
    · exact eq_of_some_mk_eq h ▸ rfl
    · obtain ⟨⟨u, _⟩, hu, h⟩ := Option.bind_eq_some_iff.mp h
      obtain ⟨⟨editors, _⟩, hall, hu⟩ := Option.bind_eq_some_iff.mp hu
      obtain rfl := eq_of_some_mk_eq hu
      exact eq_of_some_mk_eq h ▸ calls_reconcileAll hall
    · exact eq_of_some_mk_eq h ▸ rfl
  | push id val =>
    rw [handleMessage] at h
    rw [messageCalls]
    cases hready : s.isReady with
    | false =>
      rw [hready] at h
      exact eq_of_some_mk_eq h ▸ rfl
    | true =>
      rw [hready] at h
      exact calls_pushValue h
  | other _ => exact eq_of_some_mk_eq h ▸ rfl

theorem calls_turnCalls (h : s.turn now = some s') :
    s.editors.calls (s.turnCalls now) = some s'.editors := by
  cases now with
  | connect =>
    obtain rfl := Option.some.inj h
    rfl
  | disconnect =>
    obtain rfl := Option.some.inj h
    rfl
  | incident incident =>
    cases incident with
    | frame payload =>
      obtain ⟨⟨u, problems⟩, hu, rfl⟩ := Option.map_eq_some_iff.mp h
      rw [handleFrame] at hu
      rw [turnCalls]
      split_ifs at hu ⊢ with hdisconnected
      · exact eq_of_some_mk_eq hu ▸ rfl
      · cases hmessage : Inbound.classify payload with
        | ok message =>
          rw [hmessage] at hu
          exact calls_messageCalls hdisconnected hu
        | error fault =>
          rw [hmessage] at hu
          exact eq_of_some_mk_eq hu ▸ rfl
    | select node =>
      rw [turn, handle] at h
      rw [turnCalls]
      cases hselect : s.selectNode node with
      | ok result =>
        obtain ⟨u, changed⟩ := result
        obtain ⟨t, sent, hreselects, rfl⟩ := reselects_selectNode hselect
        rw [hselect] at h
        rw [← Option.some.inj h]
        exact calls_switchCalls hreselects
      | error problem =>
        rw [hselect] at h
        rw [← Option.some.inj h]
        rfl
    | interact id interaction =>
      obtain ⟨result, hresult, rfl⟩ := Option.map_eq_some_iff.mp h
      rw [interact] at hresult
      rw [turnCalls]
      split_ifs at hresult ⊢
      · obtain rfl := Option.some.inj hresult
        rfl
      · obtain ⟨edited, hedited, hresult⟩ := Option.bind_eq_some_iff.mp hresult
        rw [calls_change, EditorTree.change, hedited]
        rcases edited with problem | ⟨editors, _ | val⟩
        · obtain rfl := Option.some.inj hresult
          rfl
        · obtain rfl := Option.some.inj hresult
          rfl
        · obtain rfl := Option.some.inj hresult
          rw [send_eq]
          rfl

theorem calls_lifeCalls (h : s.turns life = some s') :
    s.editors.calls (s.lifeCalls life) = some s'.editors := by
  induction life generalizing s with
  | nil => exact congrArg (Option.map Session.editors) h
  | cons now later ih =>
    obtain ⟨u, hu, hlater⟩ := exists_turns_of_cons h
    rw [lifeCalls, hu, EditorTree.calls, List.foldlM_append]
    exact Option.bind_eq_some_iff.mpr ⟨u.editors, calls_turnCalls hu, ih hlater⟩

/-! ### Any life -/

/-- The roster undergoes the events of a life. -/
theorem undergoes_of_turns (h : s.IsOrdered) (hlife : s.turns life = some s') :
    s.editors.roster.Undergoes (s.events life) s'.editors.roster :=
  EditorTree.undergoes_calls h.editors (calls_lifeCalls hlife)

/-- No editor has been made yet. -/
theorem IsNew.badge?_eq_none (h : s.IsNew) (id : ParamId) : s.editors.roster.badge? id = none := by
  cases h with
  | plain preferred => simp [new, EditorTree.badge?_roster, EditorTree.empty, EditorTree.get?]
  | pinned node =>
    simp [pinnedTo, new, EditorTree.badge?_roster, EditorTree.empty, EditorTree.get?]

theorem IsNew.isNumbered (h : s.IsNew) : s.editors.roster.IsNumbered := by
  have hnone := h.badge?_eq_none
  constructor
  · intro id b hb
    exact absurd ((hnone id).symm.trans hb) (by simp)
  · intro id id' b b' hb
    exact absurd ((hnone id).symm.trans hb) (by simp)

/-- A new session lives any life: connections open and close, any frames come in, and the user
selects and edits; definitions may repeat ids. What happens to single editors is what `events`
tells, and no serial number is given twice in it. Every editor has a number that was given to its
id, and the editors of different ids have different numbers.

Then the life goes on. An editor that is met later under the number of one that is met now has the
same id and the same kind. If an id has an editor now and later, the number is the same, unless the
editor was removed in the meantime, or replaced because the parameter was of another kind. -/
theorem editors_told_apart (hstart : start.IsNew) (hlife : start.turns life = some s) :
    start.editors.roster.Undergoes (start.events life) s.editors.roster ∧
    ((start.events life).filterMap Roster.Event.serial?).Nodup ∧
    (∀ id e, s.editors.get? id = some e →
      ∃ event ∈ start.events life, event.issue? = some (id, e.badge)) ∧
    (∀ id id' e e', s.editors.get? id = some e → s.editors.get? id' = some e' →
      e.serial = e'.serial → id = id') ∧
    ∀ later s', s.turns later = some s' →
      s.editors.roster.Undergoes (s.events later) s'.editors.roster ∧
      (∀ id id' e e', s.editors.get? id = some e → s'.editors.get? id' = some e' →
        e'.serial = e.serial → id' = id ∧ e'.param.kind = e.param.kind) ∧
      ∀ id e e', s.editors.get? id = some e → s'.editors.get? id = some e' →
        e'.serial = e.serial ∨ .remove id ∈ s.events later ∨
          ∃ old badge, .replace id old badge ∈ s.events later ∧ old ≠ badge.kind := by
  have hlog := undergoes_of_turns hstart.isOrdered hlife
  have hnumbered := hlog.isNumbered hstart.isNumbered
  refine ⟨hlog, hlog.nodup_serials, fun id e he => ?_, fun id id' e e' he he' hserial => ?_,
    fun later s' hlater => ?_⟩
  · -- At the start nobody wears a badge.
    have hworn := EditorTree.badge?_roster_eq_some he
    refine (hlog.worn_or_issued hworn).resolve_left fun hold => ?_
    exact absurd ((hstart.badge?_eq_none id).symm.trans hold) (by simp)
  · exact hnumbered.id_eq id id' e.badge e'.badge (EditorTree.badge?_roster_eq_some he)
      (EditorTree.badge?_roster_eq_some he') hserial
  · have hafter := undergoes_of_turns (isOrdered_of_turns hstart hlife) hlater
    refine ⟨hafter, fun id id' e e' he he' hserial => ?_, fun id e e' he he' => ?_⟩
    · have hsame := hafter.eq_of_serial_eq hnumbered (EditorTree.badge?_roster_eq_some he)
        (EditorTree.badge?_roster_eq_some he') hserial
      exact hsame.imp_right (congrArg Badge.kind)
    · refine (hafter.stays_or_ends (EditorTree.badge?_roster_eq_some he)).imp_left fun hstays => ?_
      have hbadge := hstays.symm.trans (EditorTree.badge?_roster_eq_some he')
      exact (congrArg Badge.serial (Option.some.inj hbadge)).symm

/-- The node defines a text of the id 4. -/
def sampleWord : List UInt8 :=
  [0x91, 0x83, 0xa2, 0x69, 0x64, 0x04, 0xa4, 0x6e, 0x61, 0x6d, 0x65, 0xa1, 0x78, 0xa3, 0x76,
    0x61, 0x6c, 0xa1, 0x79]

/-- A flag becomes a text. The connection is lost then, and on the next one the flag is back. -/
def sampleReturn : List Turn :=
  [.incident (.frame sampleWord), .disconnect, .connect, .incident (.frame sampleListing),
    .incident (.frame sampleFlag)]

/-- The editor of the id 4 is the third, then the fourth, then the fifth. -/
theorem told_apart_after_sampleRepetition :
    (new none).IsNew ∧ ∃ s s' e e', (new none).turns sampleRepetition = some s ∧
      s.turns sampleReturn = some s' ∧ s.editors.get? ⟨4⟩ = some e ∧
      s'.editors.get? ⟨4⟩ = some e' ∧ e.badge = ⟨.flag, 3⟩ ∧ e'.badge = ⟨.flag, 5⟩ ∧
      s.events sampleReturn = [.replace ⟨4⟩ .flag ⟨.text, 4⟩, .remove ⟨1⟩, .remove ⟨2⟩,
        .remove ⟨4⟩, .make ⟨4⟩ ⟨.flag, 5⟩] ∧
      (.remove ⟨4⟩ ∈ s.events sampleReturn ∨ ∃ old badge,
        .replace ⟨4⟩ old badge ∈ s.events sampleReturn ∧ old ≠ badge.kind) := by
  have hrun : ((new none).turns sampleRepetition).bind (fun s => (s.editors.get? ⟨4⟩).bind fun e =>
      (s.turns sampleReturn).bind fun s' => (s'.editors.get? ⟨4⟩).map fun e' =>
        (e.badge, e'.badge, s.events sampleReturn)) =
      some (⟨.flag, 3⟩, ⟨.flag, 5⟩, [.replace ⟨4⟩ .flag ⟨.text, 4⟩, .remove ⟨1⟩, .remove ⟨2⟩,
        .remove ⟨4⟩, .make ⟨4⟩ ⟨.flag, 5⟩]) := by decide +kernel
  obtain ⟨s, hlife, hs⟩ := Option.bind_eq_some_iff.mp hrun
  obtain ⟨e, he, hs⟩ := Option.bind_eq_some_iff.mp hs
  obtain ⟨s', hlater, hs'⟩ := Option.bind_eq_some_iff.mp hs
  obtain ⟨e', he', hfacts⟩ := Option.map_eq_some_iff.mp hs'
  obtain ⟨hbadge, hrest⟩ := Prod.mk.inj hfacts
  obtain ⟨hbadge', hevents⟩ := Prod.mk.inj hrest
  obtain ⟨-, -, -, -, hgoesOn⟩ := editors_told_apart (.plain none) hlife
  obtain ⟨-, -, hkeeps⟩ := hgoesOn sampleReturn s' hlater
  refine ⟨.plain none, s, s', e, e', hlife, hlater, he, he', hbadge, hbadge', hevents, ?_⟩
  refine (hkeeps ⟨4⟩ e e' he he').resolve_left fun hserial => ?_
  have hserials : (⟨.flag, 5⟩ : Badge).serial = (⟨.flag, 3⟩ : Badge).serial := by
    rw [← hbadge, ← hbadge']
    exact hserial
  exact absurd hserials (by decide)

end Session

end LiveTuner
