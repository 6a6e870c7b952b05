import LiveTuner.Proofs.EditorTree.Copies

/-!
# The host of a definition

A definition without an editor of its own is exchanged within the deepest editor that is bound to a
definition with the id in it. The editors are gone through in the order of a map, which need not be
the same twice, and of several deepest ones the last would be taken.

There never are several. In a faithful tree the hosts of an id stand one above the other: each is a
group around the id, groups around one id lie within each other, and the way up from an editor leads
through all editors of groups around it, also where it passes over a group without an editor. So
their depths differ, and every order leads to the same host and the same trees.

## Main definitions

* `EditorTree.IsHost`, `EditorTree.IsAbove` — holding an id, and standing above an editor
* `EditorTree.IsNearestHost` — the host that stands below all others
* `EditorTree.HasHostChain` — the hosts of an id stand one above the other
* `EditorTree.reconcileIn`, `EditorTree.RunsTo` — changes with the editors in any order

## Main results

* `EditorTree.IsFaithful.hasHostChain` — hosts stand one above the other, at different depths
* `EditorTree.IsFaithful.nearestHostIn_eq` — the nearest host is found in any order
* `EditorTree.nearestHost_of_changes` — along a run no order makes a difference
-/

namespace LiveTuner

open Relation

namespace EditorTree

variable {t t' u : EditorTree} {c : Change} {p : Param} {id host outer inner : ParamId}
  {order : List ParamId} {ps : List Param} {changes : List Change}

/-! ### Hosts -/

/-- An editor is bound to a definition that has an id below it. -/
def IsHost (t : EditorTree) (id host : ParamId) : Prop :=
  ∃ e, t.get? host = some e ∧ e.param.hasDescendant id = true

/-- An id is on the way up from another one. -/
def IsAbove (t : EditorTree) (outer inner : ParamId) : Prop :=
  ∃ above, t.ancestors inner = some above ∧ outer ∈ above

/-- A host stands below all other hosts of an id. -/
def IsNearestHost (t : EditorTree) (id host : ParamId) : Prop :=
  t.IsHost id host ∧ ∀ other, t.IsHost id other → other = host ∨ t.IsAbove other host

/-- Of two hosts of an id, one stands above the other and is less deep. -/
def HasHostChain (t : EditorTree) (id : ParamId) : Prop :=
  ∀ host other, t.IsHost id host → t.IsHost id other → host ≠ other →
    ∃ d d', t.depth host = some d ∧ t.depth other = some d' ∧
      (t.IsAbove host other ∧ d < d' ∨ t.IsAbove other host ∧ d' < d)

theorem isHost_iff :
    t.IsHost id host ↔ ∃ e, t.get? host = some e ∧ id ∈ e.param.descendantIds := by
  simp [IsHost, Param.hasDescendant_iff]

/-- Whatever the order, the candidates are the hosts. -/
theorem mem_hosts_iff_of_perm (horder : order.Perm t.editors.keys) :
    host ∈ t.hosts id order ↔ t.IsHost id host := by
  rw [mem_hosts_iff, horder.mem_iff, mem_keys_iff, isHost_iff]
  refine ⟨And.right, fun h => ⟨?_, h⟩⟩
  obtain ⟨e, he, -⟩ := h
  simp [he]

namespace IsFaithful

theorem transGen_of_isHost (hf : t.IsFaithful) (h : t.IsHost id host) :
    TransGen (Under t.forest.nodes) id host := by
  obtain ⟨e, he, hid⟩ := isHost_iff.mp h
  obtain ⟨hnode, hhost⟩ := hf.bound host e he
  exact (Forest.transGen_under_iff hf.nodup_ids).mpr ⟨e.param, hnode, hhost, hid⟩

/-- On the way up from an editor are the editors of all groups around it. -/
theorem isAbove_iff (hf : t.IsFaithful) (hh : t.IsHeld) (hinner : t.get? inner ≠ none) :
    t.IsAbove outer inner ↔ t.get? outer ≠ none ∧ TransGen (Under t.forest.nodes) inner outer := by
  obtain ⟨l, hclimbs⟩ := hf.exists_climbs hh hinner
  rw [← hf.mem_climbs_iff hh hinner hclimbs, IsAbove, hclimbs.ancestors_eq]
  simp

/-- Of two groups around an id, one is around the other. -/
theorem above_or_above (hf : t.IsFaithful) (hh : t.IsHeld) (houter : t.IsHost id outer)
    (hinner : t.IsHost id inner) (hne : outer ≠ inner) :
    t.IsAbove outer inner ∨ t.IsAbove inner outer := by
  have hlive : ∀ {host}, t.IsHost id host → t.get? host ≠ none := by
    rintro host ⟨e, he, -⟩
    simp [he]
  rw [hf.isAbove_iff hh (hlive hinner), hf.isAbove_iff hh (hlive houter)]
  -- Every id is a member of one group only, so two ways up from it are parts of one another.
  have hunique : Relator.RightUnique (Under t.forest.nodes) := fun _ _ _ hg hg' =>
    Forest.under_unique hf.nodup_ids hg hg'
  rcases (hf.transGen_of_isHost houter).to_reflTransGen.total_of_right_unique hunique
    (hf.transGen_of_isHost hinner).to_reflTransGen with hup | hup
  · exact Or.inr ⟨hlive hinner, (reflTransGen_iff_eq_or_transGen.mp hup).resolve_left hne.symm⟩
  · exact Or.inl ⟨hlive houter, (reflTransGen_iff_eq_or_transGen.mp hup).resolve_left hne⟩

end IsFaithful

/-- What stands above an editor is less deep. -/
theorem IsAbove.depth_lt (h : t.IsAbove outer inner) :
    ∃ d d', t.depth outer = some d ∧ t.depth inner = some d' ∧ d < d' := by
  obtain ⟨above, habove, hmem⟩ := h
  obtain ⟨l, hl, hlt⟩ := (ancestors_eq_some_iff.mp habove).of_mem hmem
  exact ⟨l.length, above.length, by simp [depth, hl.ancestors_eq], by simp [depth, habove], hlt⟩

namespace IsFaithful

/-- The hosts of an id stand one above the other, at different depths. -/
theorem hasHostChain (hf : t.IsFaithful) (hh : t.IsHeld) (id : ParamId) : t.HasHostChain id := by
  intro host other hhost hother hne
  rcases hf.above_or_above hh hhost hother hne with habove | habove
  · obtain ⟨d, d', hd, hd', hlt⟩ := habove.depth_lt
    exact ⟨d, d', hd, hd', Or.inl ⟨habove, hlt⟩⟩
  · obtain ⟨d, d', hd, hd', hlt⟩ := habove.depth_lt
    exact ⟨d', d, hd', hd, Or.inr ⟨habove, hlt⟩⟩

/-- A host that is not less deep than any other is the nearest one. -/
theorem isNearestHost_of_forall_le (hf : t.IsFaithful) (hh : t.IsHeld) (hhost : t.IsHost id host)
    (hmax : ∀ other, t.IsHost id other →
      ∃ d d', t.depth other = some d ∧ t.depth host = some d' ∧ d ≤ d') :
    t.IsNearestHost id host := by
  refine ⟨hhost, fun other hother => or_iff_not_imp_left.mpr fun hne => ?_⟩
  refine (hf.above_or_above hh hother hhost hne).resolve_right fun habove => ?_
  obtain ⟨d, d', hd, hd', hlt⟩ := habove.depth_lt
  obtain ⟨x, x', hx, hx', hle⟩ := hmax other hother
  obtain rfl := Option.some.inj (hd'.symm.trans hx)
  obtain rfl := Option.some.inj (hd.symm.trans hx')
  exact absurd hlt (Nat.not_lt.mpr hle)

end IsFaithful

/-- There is one nearest host at most. -/
theorem IsNearestHost.unique {other : ParamId} (h : t.IsNearestHost id host)
    (h' : t.IsNearestHost id other) : host = other := by
  rcases h'.2 host h.1 with heq | habove
  · exact heq
  rcases h.2 other h'.1 with heq | habove'
  · exact heq.symm
  -- Each would have to be deeper than the other.
  obtain ⟨d, d', hd, hd', hlt⟩ := habove.depth_lt
  obtain ⟨x, x', hx, hx', hlt'⟩ := habove'.depth_lt
  obtain rfl := Option.some.inj (hd.symm.trans hx')
  obtain rfl := Option.some.inj (hd'.symm.trans hx)
  exact absurd hlt (Nat.lt_asymm hlt')

/-- Whatever the order, the nearest host is found, and none exactly if there is no host. -/
theorem IsFaithful.nearestHostIn_eq (hf : t.IsFaithful) (hh : t.IsHeld)
    (horder : order.Perm t.editors.keys) (id : ParamId) :
    ∃ nearest, t.nearestHostIn id order = some nearest ∧
      (nearest = none ↔ ∀ host, ¬ t.IsHost id host) ∧
      ∀ host, nearest = some host ↔ t.IsNearestHost id host := by
  have hhosts : ∀ host, host ∈ t.hosts id order ↔ t.IsHost id host := fun _ =>
    mem_hosts_iff_of_perm horder
  have hdepth : ∀ host ∈ t.hosts id order, ∃ d, t.depth host = some d := by
    intro host hhost
    obtain ⟨e, he, -⟩ := (hhosts host).mp hhost
    exact hf.exists_depth hh (by simp [he])
  rcases nearestHostIn_cases hdepth with ⟨hempty, hnone⟩ | ⟨host, hhost, hsome, hmax⟩
  · have hnot : ∀ host, ¬ t.IsHost id host := fun host hhost =>
      List.not_mem_nil (hempty ▸ (hhosts host).mpr hhost)
    exact ⟨none, hnone, iff_of_true rfl hnot,
      fun host => iff_of_false (by simp) fun hnearest => hnot host hnearest.1⟩
  · -- The walk ends with a host of greatest depth.
    have hnearest : t.IsNearestHost id host :=
      hf.isNearestHost_of_forall_le hh ((hhosts host).mp hhost) fun other hother =>
        hmax other ((hhosts other).mpr hother)
    refine ⟨some host, hsome, iff_of_false (by simp) fun hnot => hnot host hnearest.1,
      fun other => ⟨fun heq => ?_, fun hother => ?_⟩⟩
    · exact Option.some.inj heq ▸ hnearest
    · rw [hnearest.unique hother]

/-- Whatever the order, the same host is found. -/
theorem IsFaithful.nearestHostIn_eq_nearestHost (hf : t.IsFaithful) (hh : t.IsHeld)
    (horder : order.Perm t.editors.keys) (id : ParamId) :
    t.nearestHostIn id order = t.nearestHost id := by
  obtain ⟨found, hfound, -, hiff⟩ := hf.nearestHostIn_eq hh horder id
  obtain ⟨nearest, hnearest, -, hiff'⟩ := hf.nearestHostIn_eq hh (.refl t.editors.keys) id
  rw [EditorTree.nearestHost, hfound, hnearest]
  congr 1
  ext host
  rw [hiff, hiff']

/-! ### Changes in any order -/

/-- A redefinition, with the editors gone through in an order of their own. -/
def reconcileIn (t : EditorTree) (order : List ParamId) (p : Param) :
    Walk (Except Problem EditorTree) :=
  match t.get? p.id with
  | some e => (t.remount p e.labelled).map .ok
  | none => do
    match ← t.nearestHostIn p.id order with
    | none => pure (.error (.unknownParameter p.id))
    | some host =>
      match t.get? host with
      | none => pure (.error (.unknownParameter p.id))
      | some e => (t.remount (e.param.replaceDescendant p) e.labelled).map .ok

/-- The tree after a change, with the editors gone through in an order of their own. -/
def changeIn (t : EditorTree) (order : List ParamId) : Change → Walk EditorTree
  | .reconcile p => (t.reconcileIn order p).map fun
    | .ok t => t
    | .error _ => t
  | .interact id interaction => t.change (.interact id interaction)
  | .bindValue id val => t.change (.bindValue id val)

theorem reconcileIn_keys (t : EditorTree) (p : Param) :
    t.reconcileIn t.editors.keys p = t.reconcile p := rfl

theorem changeIn_keys (t : EditorTree) (c : Change) : t.changeIn t.editors.keys c = t.change c := by
  cases c with
  | reconcile p => rfl
  | interact id interaction => rfl
  | bindValue id val => rfl

/-- A tree is left by changes made one after the other, each with the editors in any order. -/
inductive RunsTo : EditorTree → List Change → EditorTree → Prop where
  /-- No change leaves the tree as it is. -/
  | refl (t : EditorTree) : RunsTo t [] t
  /-- A change is made, and then others. -/
  | change {t t₁ t' : EditorTree} {c : Change} {changes : List Change} {order : List ParamId}
    (horder : order.Perm t.editors.keys) (h : t.changeIn order c = some t₁)
    (hrest : RunsTo t₁ changes t') : RunsTo t (c :: changes) t'

namespace IsFaithful

theorem reconcileIn_eq (hf : t.IsFaithful) (hh : t.IsHeld) (horder : order.Perm t.editors.keys)
    (p : Param) : t.reconcileIn order p = t.reconcile p := by
  rw [reconcileIn, hf.nearestHostIn_eq_nearestHost hh horder]
  rfl

theorem changeIn_eq (hf : t.IsFaithful) (hh : t.IsHeld) (horder : order.Perm t.editors.keys)
    (c : Change) : t.changeIn order c = t.change c := by
  cases c with
  | reconcile p =>
    rw [changeIn, hf.reconcileIn_eq hh horder]
    rfl
  | interact id interaction => rfl
  | bindValue id val => rfl

end IsFaithful

/-- Along a run, no order of the editors leads to another tree. -/
theorem runsTo_iff_of_changes {f : Forest} (hf : t.IsFaithful) (hh : t.IsHeld)
    (hnodup : f.ids.Nodup) (hsame : f.SameGroups t.forest) (h : f.Admits changes) :
    t.RunsTo changes u ↔ changes.foldlM change t = some u := by
  induction changes generalizing t f with
  | nil =>
    constructor
    · rintro ⟨⟩
      rfl
    · intro hu
      obtain rfl := Option.some.inj hu
      exact .refl t
  | cons c rest ih =>
    -- The tree is faithful again after the change, so the next one may take any order, too.
    obtain ⟨t₁, f₁, hleads, hrest⟩ := exists_leadsTo hf hh hnodup hsame h
    have hstep := ih hleads.isFaithful hleads.isHeld hleads.nodup_ids hleads.sameGroups hrest
    have hrun : (c :: rest).foldlM change t = rest.foldlM change t₁ := by
      rw [List.foldlM_cons, hleads.change_eq]
      rfl
    rw [hrun, ← hstep]
    constructor
    · rintro ⟨⟩
      next t₂ order horder hchange hrest =>
      rw [hf.changeIn_eq hh horder, hleads.change_eq] at hchange
      exact Option.some.inj hchange ▸ hrest
    · exact .change (.refl _) (changeIn_keys t c ▸ hleads.change_eq)

/-- A tree is loaded from definitions without repeated ids and changed by redefinitions that keep
every known id in its group, by interactions and by pushed values, in any order, and each time the
editors are gone through in any order. There is one tree that the changes lead to. In it the hosts
of any id stand one above the other at different depths, every order leads to the one below all
others, and a redefinition gives the same in every order. -/
theorem nearestHost_of_changes (t : EditorTree) (hps : (Forest.ids ps).Nodup)
    (h : Forest.Admits ps changes) :
    ∃ t', changes.foldlM change (t.load ps) = some t' ∧
      (∀ u, (t.load ps).RunsTo changes u ↔ u = t') ∧
      (∀ id, t'.HasHostChain id ∧ ∃ nearest : Option ParamId,
        (nearest = none ↔ ∀ host, ¬ t'.IsHost id host) ∧
        (∀ host, nearest = some host ↔ t'.IsNearestHost id host) ∧
        ∀ order, order.Perm t'.editors.keys → t'.nearestHostIn id order = some nearest) ∧
      ∀ p order, order.Perm t'.editors.keys → t'.reconcileIn order p = t'.reconcile p := by
  obtain ⟨hf, hs, hforest⟩ := isSound_load t hps
  have hsame : Forest.SameGroups ps (t.load ps).forest := by
    rw [hforest]
    exact ⟨fun _ => Iff.rfl, fun _ _ => Iff.rfl⟩
  obtain ⟨t', hrun, hf', hh'⟩ := isFaithful_of_changes hf hs.held hps hsame h
  refine ⟨t', hrun, fun u => ?_, fun id => ⟨hf'.hasHostChain hh' id, ?_⟩, fun p order horder =>
    hf'.reconcileIn_eq hh' horder p⟩
  · rw [runsTo_iff_of_changes hf hs.held hps hsame h, hrun, Option.some_inj, eq_comm]
  · obtain ⟨nearest, hnearest, hnone, hiff⟩ :=
      hf'.nearestHostIn_eq hh' (.refl t'.editors.keys) id
    refine ⟨nearest, hnone, hiff, fun order horder => ?_⟩
    rw [hf'.nearestHostIn_eq_nearestHost hh' horder]
    exact hnearest

/-- An optional value within two groups. -/
def sceneNoise : Param := .group ⟨10⟩ "scene" [("noise", optionalNoise)] []

/-- A panel is opened, a value is pushed, and the optional value, which has no editor, loses one of
its parameters. -/
def revaluing : List Change :=
  [.interact ⟨10⟩ .toggle, .bindValue ⟨4⟩ (.bool false),
    .reconcile (.group ⟨3⟩ ".enabled_value" [("low", .leaf ⟨4⟩ "low" (.flag true))] [])]

/-- Both groups are hosts of the optional value, and in every order the inner one is found. -/
theorem nearestHost_revaluing :
    (Forest.ids [sceneNoise]).Nodup ∧ Forest.Admits [sceneNoise] revaluing ∧
    ∃ t', revaluing.foldlM change (empty.load [sceneNoise]) = some t' ∧ t'.get? ⟨3⟩ = none ∧
      t'.get? ⟨5⟩ = none ∧ t'.IsHost ⟨3⟩ ⟨10⟩ ∧ t'.IsNearestHost ⟨3⟩ ⟨1⟩ ∧
      (∀ u, (empty.load [sceneNoise]).RunsTo revaluing u ↔ u = t') ∧
      ∀ order, order.Perm t'.editors.keys → t'.nearestHostIn ⟨3⟩ order = some (some ⟨1⟩) := by
  have hids : (Forest.ids [sceneNoise]).Nodup := by decide
  have hadmits : Forest.Admits [sceneNoise] revaluing := by decide
  obtain ⟨t', hrun, hruns, hhosts, -⟩ := nearestHost_of_changes empty hids hadmits
  obtain ⟨-, nearest, -, hiff, hnearest⟩ := hhosts ⟨3⟩
  have hafter : (revaluing.foldlM change (empty.load [sceneNoise])).map (fun t =>
      (t.nearestHost ⟨3⟩, (t.get? ⟨3⟩).isNone, (t.get? ⟨5⟩).isNone,
        (t.get? ⟨10⟩).any (·.param.hasDescendant ⟨3⟩))) =
      some (some (some ⟨1⟩), true, true, true) := by decide
  rw [hrun, Option.map_some, Option.some_inj] at hafter
  simp only [Prod.mk.injEq, Option.isNone_iff_eq_none, Option.any_eq_true] at hafter
  obtain ⟨hfound, hdead, hgone, hhost⟩ := hafter
  obtain rfl : nearest = some ⟨1⟩ :=
    Option.some.inj ((hnearest _ (.refl _)).symm.trans hfound)
  exact ⟨hids, hadmits, t', hrun, hdead, hgone, hhost, (hiff ⟨1⟩).mp rfl, hruns, hnearest⟩

end EditorTree

end LiveTuner
