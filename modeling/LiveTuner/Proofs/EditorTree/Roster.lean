import LiveTuner.Proofs.EditorTree.Layered
import LiveTuner.Proofs.Roster

/-!
# The roster of an editor tree

A mount makes an editor, replaces one, or binds the one that there is; it then mounts what the panel
asks for, and removes what the panel no longer shows. The same id may come up again further down, so
that one redefinition can make, replace and remove the editor of an id several times over. This file
writes down what happens to single editors on the way, function by function, each time in the tree
that the function finds. The roster of the tree undergoes just that.

Nothing happens to single editors when an editor takes a value or when groups take a definition
over. Loading removes all editors first.

## Main definitions

* `EditorTree.roster` — the roster of a tree
* `EditorTree.removeEvents`, `EditorTree.mountEvents`, `EditorTree.loadEvents`,
  `EditorTree.changeEvents` — what happens to editors when one is removed, when a definition is
  mounted, when definitions are loaded, when a change is made
* `EditorTree.callsEvents` — what happens when several calls are made

## Main results

* `EditorTree.undergoes_mount`, `EditorTree.undergoes_load`, `EditorTree.undergoes_change` — the
  roster undergoes it
* `EditorTree.undergoes_calls` — also when several calls are made
-/

namespace LiveTuner

/-- What an editor wears. -/
def Editor.badge (e : Editor) : Badge := ⟨e.param.kind, e.serial⟩

/-- A value that is stored changes neither the kind of the parameter nor the number. -/
theorem Editor.Stored.badge_eq {e e' : Editor} (h : e.Stored e') : e'.badge = e.badge := by
  obtain ⟨i, name, c, c', hp, hp', hc⟩ := h.exists_leaf
  have hkind : e'.param.kind = e.param.kind := by
    rw [hp, hp']
    exact hc
  rw [badge, badge, hkind, h.serial_eq]

namespace EditorTree

variable {t t' : EditorTree} {id : ParamId} {e e' : Editor} {p : Param} {m : Mount}
  {parent : Option ParamId} {params : List Param} {c : Change} {call : Call}

/-- The roster of a tree. -/
def roster (t : EditorTree) : Roster := ⟨fun id => (t.get? id).map Editor.badge, t.serials⟩

theorem badge?_roster (t : EditorTree) (id : ParamId) :
    t.roster.badge? id = (t.get? id).map Editor.badge := rfl

theorem badge?_roster_eq_some (he : t.get? id = some e) : t.roster.badge? id = some e.badge := by
  rw [badge?_roster, he, Option.map_some]

/-- A roster says nothing about the groups above the editors. -/
theorem roster_setParent (t : EditorTree) (id : ParamId) (parent : Option ParamId) :
    (t.setParent id parent).roster = t.roster := by
  cases parent with
  | none => rfl
  | some parent => rfl

theorem roster_setEditor (t : EditorTree) (id : ParamId) (e : Editor) :
    (t.setEditor id e).roster =
      { t.roster with badge? := Function.update t.roster.badge? id (some e.badge) } := by
  have hbadge : (t.setEditor id e).roster.badge? =
      Function.update t.roster.badge? id (some e.badge) := by
    funext z
    rw [Function.update_apply, badge?_roster, get?_setEditor]
    by_cases hz : z = id
    · rw [if_pos hz.symm, if_pos hz, Option.map_some]
    · rw [if_neg (Ne.symm hz), if_neg hz, badge?_roster]
  rw [roster, ← hbadge]
  rfl

/-- An editor in place of another with the same badge is as good as that. -/
theorem roster_setEditor_of_badge_eq (he : t.get? id = some e) (hbadge : e'.badge = e.badge) :
    (t.setEditor id e').roster = t.roster := by
  have hworn : t.roster.badge? id = some e'.badge := by rw [badge?_roster_eq_some he, hbadge]
  rw [roster_setEditor, ← hworn, Function.update_eq_self]

theorem roster_eraseEditor (t : EditorTree) (id : ParamId) :
    (t.eraseEditor id).roster = t.roster.drop id := by
  have hbadge : (t.eraseEditor id).roster.badge? = Function.update t.roster.badge? id none := by
    funext z
    rw [Function.update_apply, badge?_roster, get?_eraseEditor]
    by_cases hz : z = id
    · rw [if_pos hz.symm, if_pos hz, Option.map_none]
    · rw [if_neg (Ne.symm hz), if_neg hz, badge?_roster]
  rw [Roster.drop, ← hbadge]
  rfl

/-! ### Steps along a list -/

/-- What happens to editors while a step is made for each item of a list. -/
def eventsAlong {α : Type} (step : EditorTree → α → EditorTree)
    (events : EditorTree → α → List Roster.Event) : EditorTree → List α → List Roster.Event
  | _, [] => []
  | t, x :: rest => events t x ++ eventsAlong step events (step t x) rest

theorem undergoes_foldl {α : Type} {step : EditorTree → α → EditorTree}
    {events : EditorTree → α → List Roster.Event}
    (h : ∀ (t : EditorTree) x, t.roster.Undergoes (events t x) (step t x).roster)
    (t : EditorTree) (l : List α) :
    t.roster.Undergoes (eventsAlong step events t l) (l.foldl step t).roster := by
  induction l generalizing t with
  | nil => exact .nil t.roster
  | cons x rest ih => exact (h t x).append (ih (step t x))

/-! ### Removing -/

/-- What happens to editors when one is removed with those below it, to a depth of `bound`. -/
def removeEventsWithin : Nat → EditorTree → ParamId → List Roster.Event
  | 0, _, _ => []
  | bound + 1, t, id =>
    match t.get? id with
    | none => []
    | some e =>
      .remove id :: eventsAlong (removeWithin bound) (removeEventsWithin bound) (t.eraseEditor id)
        e.view.childIds

/-- What happens to editors when one is removed with all below it. -/
def removeEvents (t : EditorTree) (id : ParamId) : List Roster.Event :=
  removeEventsWithin t.size t id

theorem undergoes_removeWithin (bound : Nat) (t : EditorTree) (id : ParamId) :
    t.roster.Undergoes (removeEventsWithin bound t id) (removeWithin bound t id).roster := by
  induction bound generalizing t id with
  | zero => exact .nil t.roster
  | succ bound ih =>
    rw [removeWithin, removeEventsWithin]
    cases he : t.get? id with
    | none => exact .nil t.roster
    | some e =>
      have hbelow := undergoes_foldl ih (t.eraseEditor id) e.view.childIds
      rw [roster_eraseEditor] at hbelow
      exact .cons (.remove id e.badge (badge?_roster_eq_some he)) hbelow

theorem undergoes_remove (t : EditorTree) (id : ParamId) :
    t.roster.Undergoes (t.removeEvents id) (t.remove id).roster :=
  undergoes_removeWithin t.size t id

/-! ### Mounting -/

/-- What happens to the editor of the id itself when a definition is mounted. -/
def bindEvents (t : EditorTree) (m : Mount) : List Roster.Event :=
  match t.get? m.param.id with
  | none => [.make m.param.id ⟨m.param.kind, t.serials + 1⟩]
  | some e =>
    if e.param.kind = m.param.kind then []
    else [.replace m.param.id e.param.kind ⟨m.param.kind, t.serials + 1⟩]

/-- What happens to editors when a definition is mounted, to a depth of `bound`: first to that of
its id, then to those that its panel asks for, then to those that it no longer shows. -/
def mountEventsWithin : Nat → Option ParamId → EditorTree → Mount → List Roster.Event
  | 0, _, _, _ => []
  | bound + 1, parent, t, m =>
    let id := m.param.id
    let (e, t₁, previous) := t.editorFor m
    let e := e.rebuild
    let t₁ := (t₁.setEditor id e).setParent id parent
    let current := e.mounts.map (·.param.id)
    t.bindEvents m
      ++ eventsAlong (mountWithin bound (some id)) (mountEventsWithin bound (some id)) t₁ e.mounts
      ++ eventsAlong remove removeEvents (e.mounts.foldl (mountWithin bound (some id)) t₁)
        (previous.filter (!current.contains ·))

/-- What happens to editors when a definition is mounted. -/
def mountEvents (t : EditorTree) (m : Mount) (parent : Option ParamId) : List Roster.Event :=
  mountEventsWithin m.param.height parent t m

/-- The editor for a mount is a new one, with the next number, or the present one, with the number
that it has. -/
theorem undergoes_editorFor (t : EditorTree) (m : Mount) (parent : Option ParamId) :
    t.roster.Undergoes (t.bindEvents m)
      (((t.editorFor m).2.1.setEditor m.param.id (t.editorFor m).1.rebuild).setParent m.param.id
        parent).roster := by
  rw [roster_setParent, bindEvents, editorFor]
  cases he : t.get? m.param.id with
  | none =>
    have hnone : t.roster.badge? m.param.id = none := by rw [badge?_roster, he, Option.map_none]
    dsimp only
    rw [roster_setEditor]
    exact .single (.make m.param.id m.param.kind hnone)
  | some e =>
    have hworn := badge?_roster_eq_some he
    dsimp only
    split_ifs with hkind
    · -- The editor is bound to a parameter of its own kind.
      have hbadge : ({ e.bind m.param with labelled := m.labelled } : Editor).rebuild.badge =
          e.badge := by
        rw [Editor.badge, Editor.badge, hkind]
        rfl
      rw [roster_setEditor_of_badge_eq he hbadge]
      exact .nil t.roster
    · rw [roster_setEditor]
      exact .single (.replace m.param.id e.badge m.param.kind hworn hkind)

theorem undergoes_mountWithin (bound : Nat) (parent : Option ParamId) (t : EditorTree)
    (m : Mount) :
    t.roster.Undergoes (mountEventsWithin bound parent t m)
      (mountWithin bound parent t m).roster := by
  induction bound generalizing parent t m with
  | zero => exact .nil t.roster
  | succ bound ih =>
    -- The editor of the id comes first, then what its panel asks for, then what it shows no longer.
    have hbound := t.undergoes_editorFor m parent
    have hshown := hbound.append (undergoes_foldl (ih (some m.param.id)) _
      (t.editorFor m).1.rebuild.mounts)
    exact hshown.append (undergoes_foldl undergoes_remove _ _)

theorem undergoes_mount (t : EditorTree) (m : Mount) (parent : Option ParamId) :
    t.roster.Undergoes (t.mountEvents m parent) (t.mount m parent).roster :=
  undergoes_mountWithin m.param.height parent t m

/-- An id that a group shows twice, for a flag and for a text, has one editor after the other. -/
example :
    empty.mountEvents ⟨.group ⟨1⟩ "r" [("a", .leaf ⟨4⟩ "a" (.flag true)),
      ("b", .leaf ⟨4⟩ "b" (.text "y"))] [], true⟩ none =
    [.make ⟨1⟩ ⟨.group, 1⟩, .make ⟨4⟩ ⟨.flag, 2⟩, .replace ⟨4⟩ .flag ⟨.text, 3⟩] := by decide

/-! ### Loading -/

/-- What happens to editors when a topmost definition is added. -/
def addRootEvents (t : EditorTree) (p : Param) : List Roster.Event :=
  { t with roots := t.roots ++ [p.id] }.mountEvents ⟨p, true⟩ none

/-- What happens to editors when definitions are loaded: all are removed, and others are made. -/
def loadEvents (t : EditorTree) (params : List Param) : List Roster.Event :=
  t.editors.keys.map .remove ++ eventsAlong addRoot addRootEvents t.clear params

theorem undergoes_clear (t : EditorTree) :
    t.roster.Undergoes (t.editors.keys.map .remove) t.clear.roster := by
  have hlive : ∀ id, id ∈ t.editors.keys ↔ t.roster.badge? id ≠ none := by
    intro id
    rw [badge?_roster, Ne, Option.map_eq_none_iff, mem_keys_iff]
  have hremoved := Roster.Undergoes.removes t.roster
    t.editors.nodup_keys fun id => (hlive id).mp
  have hclear : (fun z => if z ∈ t.editors.keys then none else t.roster.badge? z) =
      t.clear.roster.badge? := by
    funext z
    have hnone : t.clear.roster.badge? z = none := by simp [badge?_roster, clear, empty, get?]
    rw [hnone]
    split_ifs with hz
    · rfl
    · exact not_not.mp (mt (hlive z).mpr hz)
  rw [hclear] at hremoved
  exact hremoved

theorem undergoes_load (t : EditorTree) (params : List Param) :
    t.roster.Undergoes (t.loadEvents params) (t.load params).roster := by
  have haddRoot : ∀ (t : EditorTree) (p : Param),
      t.roster.Undergoes (t.addRootEvents p) (t.addRoot p).roster := fun t p =>
    undergoes_mount { t with roots := t.roots ++ [p.id] } ⟨p, true⟩ none
  exact t.undergoes_clear.append (undergoes_foldl haddRoot t.clear params)

/-! ### Changes -/

/-- What happens to editors when a change is made. -/
def changeEvents (t : EditorTree) : Change → List Roster.Event
  | .reconcile p =>
    match t.mountFor p with
    | some (some m) => t.mountEvents m (t.parent? m.param.id)
    | _ => []
  | .interact _ _ => []
  | .bindValue _ _ => []

/-- A definition that a group takes over is not the group's own. -/
theorem badge_patchEditor (p : Param) (e : Editor) : (patchEditor p e).badge = e.badge := by
  have hkind : (patchEditor p e).param.kind = e.param.kind := by
    rw [param_patchEditor, kind_replaceDescendant]
  rw [Editor.badge, Editor.badge, hkind, patchEditor]
  split
  · rfl
  · rfl

theorem roster_patch (p : Param) (t : EditorTree) (g : ParamId) :
    (t.patch p g).roster = t.roster := by
  rw [patch]
  cases he : t.get? g with
  | none => rfl
  | some e => exact roster_setEditor_of_badge_eq he (badge_patchEditor p e)

theorem roster_syncAncestors (h : t.syncAncestors id = some t') : t'.roster = t.roster := by
  apply kept_by_syncAncestors (P := fun u => u.roster = t.roster) _ rfl h
  intro x u g _ hu
  rw [roster_patch, hu]

theorem undergoes_change (h : t.IsPaintable) (ht : t.change c = some t') :
    t.roster.Undergoes (t.changeEvents c) t'.roster := by
  have hkind := fun id e he => (h.fits.editor id e he).kind_eq
  -- A value that is stored is taken over into the groups above.
  have hstore : ∀ {id e e' u}, t.get? id = some e → e.Stored e' →
      (t.setEditor id e').syncAncestors id = some u → t.roster.Undergoes [] u.roster := by
    intro id e e' u he hstored hu
    rw [roster_syncAncestors hu, roster_setEditor_of_badge_eq he hstored.badge_eq]
    exact .nil t.roster
  cases c with
  | reconcile p =>
    obtain ⟨result, hresult, rfl⟩ := Option.map_eq_some_iff.mp ht
    rw [reconcile_eq] at hresult
    obtain ⟨m?, hm?, hresult⟩ := Option.bind_eq_some_iff.mp hresult
    rw [changeEvents, hm?]
    cases m? with
    | none =>
      obtain rfl := Option.some.inj hresult
      exact .nil t.roster
    | some m =>
      obtain ⟨u, hu, rfl⟩ := Option.map_eq_some_iff.mp hresult
      dsimp only
      rw [roster_syncAncestors hu]
      exact t.undergoes_mount m (t.parent? m.param.id)
  | interact id interaction =>
    obtain ⟨result, hresult, rfl⟩ := Option.map_eq_some_iff.mp ht
    rcases interact_cases (hkind id) interaction with ⟨problem, heq⟩ |
      ⟨e, he, -, -, heq⟩ | ⟨e, e', i, name, c, c', he, -, hstored, -, -, -, heq⟩
    · obtain rfl := Option.some.inj (heq.symm.trans hresult)
      exact .nil t.roster
    · obtain rfl := Option.some.inj (heq.symm.trans hresult)
      have hbadge : (e.setExpanded (!e.expanded)).badge = e.badge := rfl
      dsimp only
      rw [roster_setEditor_of_badge_eq he hbadge]
      exact .nil t.roster
    · obtain ⟨u, hu, rfl⟩ := Option.map_eq_some_iff.mp (heq.symm.trans hresult)
      exact hstore he hstored hu
  | bindValue id val =>
    obtain ⟨result, hresult, rfl⟩ := Option.map_eq_some_iff.mp ht
    rcases bindValue_cases (hkind id) val with ⟨problem, heq⟩ | ⟨e, e', he, hstored, -, heq⟩
    · obtain rfl := Option.some.inj (heq.symm.trans hresult)
      exact .nil t.roster
    · obtain ⟨u, hu, rfl⟩ := Option.map_eq_some_iff.mp (heq.symm.trans hresult)
      exact hstore he hstored hu

/-! ### Calls -/

/-- What happens to editors when a call is made. -/
def callEvents (t : EditorTree) : Call → List Roster.Event
  | .load params => t.loadEvents params
  | .change c => t.changeEvents c

/-- What happens to editors when calls are made, one after the other. -/
def callsEvents (t : EditorTree) : List Call → List Roster.Event
  | [] => []
  | call :: later =>
    t.callEvents call ++
      match t.call call with
      | some t => t.callsEvents later
      | none => []

theorem undergoes_call (h : t.IsPaintable) (ht : t.call call = some t') :
    t.roster.Undergoes (t.callEvents call) t'.roster := by
  cases call with
  | load params =>
    obtain rfl := Option.some.inj ht
    exact t.undergoes_load params
  | change c => exact undergoes_change h ht

/-- The roster undergoes what happens to single editors, call by call. -/
theorem undergoes_calls {calls : List Call} (h : t.IsPaintable) (ht : t.calls calls = some t') :
    t.roster.Undergoes (t.callsEvents calls) t'.roster := by
  induction calls generalizing t with
  | nil =>
    obtain rfl := Option.some.inj ht
    exact .nil t.roster
  | cons call later ih =>
    rw [EditorTree.calls, List.foldlM_cons] at ht
    obtain ⟨u, hu, hlater⟩ := Option.bind_eq_some_iff.mp ht
    rw [callsEvents, hu]
    exact (undergoes_call h hu).append (ih (h.call hu) hlater)

end EditorTree

end LiveTuner
