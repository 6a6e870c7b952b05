import LiveTuner.Proofs.EditorTree.Run

/-!
# Copies in the groups above

A group is bound to a definition that holds a copy of everything below it, while the editors of
what it shows are bound to definitions of their own and change by themselves. A group that is
painted anew mounts the copies it holds, so an old copy would bring an old value back.

No copy is ever old, even where an editor is lost. The panel that shows an editor need not belong to
the group that its parameter is a member of: an optional value has no editor, and its parameters
stand one group further up.

## Main definitions

* `EditorTree.Holds` — a definition has another one where the panel of its group looks for it
* `EditorTree.IsCurrent` — every group holds what the editors recorded below it are bound to

## Main results

* `EditorTree.IsFaithful.isCurrent` — all copies in a faithful tree are current
* `EditorTree.isCurrent_of_changes` — they stay so along a run
-/

namespace LiveTuner

namespace EditorTree

variable {t : EditorTree} {f : Forest} {ps : List Param} {changes : List Change}

/-- A definition is a member of another one, or a member of such a member without an editor. -/
def Holds (t : EditorTree) (p q : Param) : Prop :=
  q ∈ p.children ∨ ∃ u ∈ p.children, t.get? u.id = none ∧ q ∈ u.children

/-- What an editor is bound to is what the group recorded above it holds of that id. -/
def IsCurrent (t : EditorTree) : Prop :=
  ∀ id g e above, t.get? id = some e → t.parent? id = some g → t.get? g = some above →
    e.param.id = id ∧ t.Holds above.param e.param ∧
      ∀ q ∈ above.param.nodes, q.id = id → q = e.param

/-- In a tree that is bound to the nodes of a forest without repeated ids, there is only one node
for all copies of an id. -/
theorem IsFaithful.isCurrent (hf : t.IsFaithful) (hh : t.IsHeld) : t.IsCurrent := by
  intro id g e above he hparent habove
  obtain ⟨hnode, hid⟩ := hf.bound id e he
  obtain ⟨hgnode, hgid⟩ := hf.bound g above habove
  have hunique : ∀ q ∈ t.forest.nodes, q.id = id → q = e.param := fun q hq hqid =>
    Forest.eq_of_id_eq hf.nodup_ids hq hnode (hqid.trans hid.symm)
  -- A group in the forest is the one that the editor of its id is bound to.
  have hgroup : ∀ q ∈ t.forest.nodes, q.id = g → q = above.param := fun q hq hqid =>
    Forest.eq_of_id_eq hf.nodup_ids hq hgnode (hqid.trans hgid.symm)
  have hmember : ∀ q ∈ t.forest.nodes, ∀ m ∈ q.children, m ∈ t.forest.nodes := fun q hq m hm =>
    Forest.mem_nodes_trans hq (Param.mem_nodes_of_mem_children hm)
  refine ⟨hid, ?_, fun q hq => hunique q (Forest.mem_nodes_trans hgnode hq)⟩
  rcases hf.stands g id (hf.shows_of_parent? hh hparent) with
    ⟨q, hq, hqg, m, hm, hmid⟩ | ⟨u, ⟨v, hv, hvu, m, hm, hmid⟩, ⟨q, hq, hqg, w, hw, hwu⟩, hnone⟩
  · obtain rfl := hgroup q hq hqg
    exact Or.inl (hunique m (hmember _ hq m hm) hmid ▸ hm)
  · obtain rfl := hgroup q hq hqg
    obtain rfl : v = w :=
      Forest.eq_of_id_eq hf.nodup_ids hv (hmember _ hq w hw) (hvu.trans hwu.symm)
    exact Or.inr ⟨v, hw, hvu ▸ hnone, hunique m (hmember v hv m hm) hmid ▸ hm⟩

/-- Along a run the tree stays bound to a forest, and editors stay in panels. -/
theorem isFaithful_of_changes (hf : t.IsFaithful) (hh : t.IsHeld) (hnodup : f.ids.Nodup)
    (hsame : f.SameGroups t.forest) (h : f.Admits changes) :
    ∃ t', changes.foldlM change t = some t' ∧ t'.IsFaithful ∧ t'.IsHeld := by
  induction changes generalizing t f with
  | nil => exact ⟨t, rfl, hf, hh⟩
  | cons c rest ih =>
    obtain ⟨t₁, f₁, hleads, hrest⟩ := exists_leadsTo hf hh hnodup hsame h
    obtain ⟨t', hrun, hf', hh'⟩ :=
      ih hleads.isFaithful hleads.isHeld hleads.nodup_ids hleads.sameGroups hrest
    refine ⟨t', ?_, hf', hh'⟩
    rw [List.foldlM_cons, hleads.change_eq]
    exact hrun

/-- A tree is loaded from definitions without repeated ids and changed by redefinitions that keep
every known id in its group, by interactions and by pushed values, in any order. All changes can be
made, and the copy that a group holds of an editor recorded below it, as a member or as a member of
a member without an editor, is what that editor is bound to. -/
theorem isCurrent_of_changes (t : EditorTree) (hps : (Forest.ids ps).Nodup)
    (h : Forest.Admits ps changes) :
    ∃ t', changes.foldlM change (t.load ps) = some t' ∧ t'.IsCurrent := by
  obtain ⟨hf, hs, hforest⟩ := isSound_load t hps
  have hsame : Forest.SameGroups ps (t.load ps).forest := by
    rw [hforest]
    exact ⟨fun _ => Iff.rfl, fun _ _ => Iff.rfl⟩
  obtain ⟨t', hrun, hf', hh'⟩ := isFaithful_of_changes hf hs.held hps hsame h
  exact ⟨t', hrun, hf'.isCurrent hh'⟩

/-- The parameters of an optional value, one of them with a value that has been pushed, are those
that the group further up holds, also once the value has an editor of its own. -/
theorem isCurrent_reflagging_regrouping :
    (Forest.ids [optionalNoise]).Nodup ∧ Forest.Admits [optionalNoise] (reflagging ++ regrouping) ∧
    (reflagging.foldlM change (empty.load [optionalNoise])).bind (·.parent? ⟨4⟩) = some ⟨1⟩ ∧
    (∃ t', reflagging.foldlM change (empty.load [optionalNoise]) = some t' ∧ t'.IsCurrent) ∧
    ∃ t', (reflagging ++ regrouping).foldlM change (empty.load [optionalNoise]) = some t' ∧
      t'.IsCurrent :=
  have hids : (Forest.ids [optionalNoise]).Nodup := by decide
  have hadmits : Forest.Admits [optionalNoise] (reflagging ++ regrouping) := by decide
  ⟨hids, hadmits, by decide, isCurrent_of_changes empty hids (by decide),
    isCurrent_of_changes empty hids hadmits⟩

end EditorTree

end LiveTuner
