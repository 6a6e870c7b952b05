import LiveTuner.Proofs.EditorTree.Instances

/-!
# Panels that suit their groups

A panel is painted when the editor of its group is. Which editors belong into it, and which of them
show their labels, depends on the members of the group: on their ids, on their names, and on whether
a member is a group itself. A redefinition paints the editor of its id and what stands below it. The
groups above take the definition over without being painted, so their panels may not suit them any
more.

They all do exactly if the group right above the editor asks, once it has taken the definition over,
for what its panel shows already. Groups further up always do, and so does a group in which a
definition without an editor of its own has been exchanged.

## Main definitions

* `EditorTree.Suits` — an editor shows what the panel of a definition asks for, labels included
* `EditorTree.IsSuited` — every editor suits the definition that it is bound to
* `EditorTree.Upsets` — a definition makes the group above its editor ask for something else
* `EditorTree.StaysSuited`, `EditorTree.NothingUpsets` — all trees of a run are suited; no
  redefinition in it upsets a panel

## Main results

* `EditorTree.labels_mountWithin` — a mount labels what it comes to mount as asked for
* `EditorTree.Reconciled.isSuited_iff` — a redefinition leaves a suited tree suited exactly if it
  upsets nothing
* `EditorTree.staysSuited_load_iff` — the trees of a run are suited exactly if nothing upsets a
  panel
* `EditorTree.not_staysSuited_retitling` — a run in which something does
-/

namespace LiveTuner

open Relation

namespace EditorTree

variable {ns : List Param} {s t t' t₂ : EditorTree} {p q : Param} {m m' : Mount}
  {par k : Option ParamId} {id g z : ParamId} {ids : List ParamId} {e e' : Editor} {bound : Nat}
  {c : Change} {changes : List Change} {f : Forest}

/-! ### Labels -/

/-- The editor that a mount asks for is labelled as the mount asks for, if there is one. -/
def Labels (t : EditorTree) (m : Mount) : Prop :=
  ∀ e, t.get? m.param.id = some e → e.labelled = m.labelled

theorem labels_iff_map : t.Labels m ↔
    ∀ labelled ∈ (t.get? m.param.id).map Editor.labelled, labelled = m.labelled := by
  simp [Labels]

theorem Labels.of_get?_eq (h : t.Labels m) (heq : t'.get? m.param.id = t.get? m.param.id) :
    t'.Labels m := fun e he => h e (heq ▸ he)

theorem Labels.of_removal (h : t.Labels m) (hr : Removal t t' ids) : t'.Labels m := by
  intro e he
  exact h e ((hr.get?_eq_of_ne_none (by simp [he])).1.symm.trans he)

/-- Several mounts label what each of them comes to mount, as each of them does by itself. -/
theorem labels_foldl {mounts : List Mount} (hs : s.IsOrderly ns)
    (hns : ∀ m ∈ mounts, m.param.nodes ⊆ ns)
    (hapart : IsTreeLike.Apart ns (mounts.map (·.param)))
    (hmount : ∀ m ∈ mounts, ∀ s : EditorTree, s.IsOrderly ns →
      Mounting ns [m.param] par s (mountWithin bound par s m))
    (hlabels : ∀ m ∈ mounts, ∀ s : EditorTree, s.IsOrderly ns → ∀ m' k, m.Reaches par m' k →
      (mountWithin bound par s m).Labels m')
    (hm : m ∈ mounts) (hreaches : m.Reaches par m' k) :
    (mounts.foldl (mountWithin bound par) s).Labels m' := by
  induction mounts generalizing s with
  | nil => exact absurd hm List.not_mem_nil
  | cons b rest ih =>
    have hb := hmount b List.mem_cons_self s hs
    have hbns := hns b List.mem_cons_self
    have hafter := hb.isOrderly hs fun q hq => List.mem_singleton.mp hq ▸ hbns
    have hrestns : ∀ m ∈ rest, m.param.nodes ⊆ ns := fun x hx => hns x (List.mem_cons_of_mem _ hx)
    rw [List.map_cons] at hapart
    obtain ⟨hfirst, hrest⟩ := List.pairwise_cons.mp hapart
    rcases List.mem_cons.mp hm with rfl | hm
    · -- What the first of the mounts reaches, the others leave alone.
      have hothers := mounting_foldl hafter hrestns hrest fun x hx =>
        hmount x (List.mem_cons_of_mem _ hx)
      have hbelow : ReflTransGen (Under ns) m'.param.id m.param.id :=
        (placedAmong_singleton.mpr hreaches.placed).below_singleton hbns
      exact (hlabels m List.mem_cons_self s hs m' k hreaches).of_get?_eq
        (Mounting.eq_of_apart hfirst hothers hbelow).1
    · exact ih hafter hrestns hrest (fun x hx => hmount x (List.mem_cons_of_mem _ hx))
        (fun x hx => hlabels x (List.mem_cons_of_mem _ hx)) hm

/-- Whatever a mount comes to mount is labelled as asked for, unless it is gone. -/
theorem labels_mountWithin (hT : IsTreeLike ns) (hheight : m.param.height ≤ bound)
    (hnodup : m.param.ids.Nodup) (hns : m.param.nodes ⊆ ns) (hs : s.IsOrderly ns)
    (hreaches : m.Reaches par m' k) : (mountWithin bound par s m).Labels m' := by
  induction bound generalizing m par s m' k with
  | zero => exact absurd hheight (Nat.not_le_of_gt (height_pos _))
  | succ bound ih =>
    have hbelow : ∀ c ∈ panelMounts m.param, c.param.height ≤ bound ∧ c.param.ids.Nodup ∧
        c.param.nodes ⊆ ns := by
      intro c hc
      have hmem : c.param ∈ m.param.panel := List.mem_map_of_mem hc
      have hlt := Param.height_lt_of_mem_panel hmem
      exact ⟨by omega, Param.nodup_ids_of_mem_panel hnodup hmem,
        Param.nodes_subset_of_mem_panel hns hmem⟩
    have hmount : ∀ c ∈ panelMounts m.param, ∀ s : EditorTree, s.IsOrderly ns →
        Mounting ns [c.param] (some m.param.id) s (mountWithin bound (some m.param.id) s c) := by
      intro c hc s hs
      obtain ⟨hheight', hnodup', hns'⟩ := hbelow c hc
      exact mounting_mountWithin hT hheight' hnodup' hns' hs
    have hlabels : ∀ c ∈ panelMounts m.param, ∀ s : EditorTree, s.IsOrderly ns → ∀ m' k,
        c.Reaches (some m.param.id) m' k →
        (mountWithin bound (some m.param.id) s c).Labels m' := by
      intro c hc s hs m' k hreaches
      obtain ⟨hheight', hnodup', hns'⟩ := hbelow c hc
      exact ih hheight' hnodup' hns' hs hreaches
    obtain ⟨t, gone, hparts, hlabel⟩ :=
      exists_parts par m.labelled hT hnodup hns hs hmount
    -- The definition keeps the editor painted first: what follows stays below it. What its panel
    -- asks for is labelled by then, and the removal makes nothing.
    rcases Mount.reaches_iff.mp hreaches with ⟨rfl, rfl⟩ | ⟨c, hc, hreaches⟩
    · have hself : t.Labels m' := hlabel
      exact hself.of_get?_eq (hparts.eq_of_not_below (hT.irrefl m'.param.id)).2.1
    · have hpanel := labels_foldl hparts.orderly_painted (fun c hc => (hbelow c hc).2.2)
        (hT.apart_panel hnodup hns) hmount hlabels hc hreaches
      exact hpanel.of_removal hparts.removal

/-! ### Panels -/

/-- An editor shows what the panel of a definition asks for, and what it shows is labelled as that
panel asks for. -/
structure Suits (t : EditorTree) (e : Editor) (p : Param) : Prop where
  /-- The panel refers to the ids that are asked for. -/
  childIds_eq : e.view.childIds = (panelMounts p).map (·.param.id)
  /-- Their editors are labelled as asked for. -/
  labels : ∀ m ∈ panelMounts p, t.Labels m

/-- Every editor suits the definition that it is bound to. -/
def IsSuited (t : EditorTree) : Prop := ∀ id e, t.get? id = some e → t.Suits e e.param

/-- In place of the editor of its id, a definition makes the group above ask for something else than
its panel shows. -/
def Upsets (t : EditorTree) (p : Param) : Prop :=
  ∃ g e, t.parent? p.id = some g ∧ t.get? g = some e ∧ ¬ t.Suits e (e.param.replaceDescendant p)

theorem Suits.of_asked_eq (h : t.Suits e p) (hasked : q.asked = p.asked) : t.Suits e q := by
  have hids := congrArg (List.map Prod.fst) hasked
  simp only [Param.asked, List.map_map] at hids
  refine ⟨h.childIds_eq.trans hids.symm, fun m hm x hx => ?_⟩
  have hmem : m.ask ∈ p.asked := hasked ▸ List.mem_map_of_mem hm
  obtain ⟨m₀, hm₀, hask⟩ := List.mem_map.mp hmem
  obtain ⟨hid, hlabelled⟩ := Prod.mk.inj hask
  rw [← hlabelled]
  exact h.labels m₀ hm₀ x (hid ▸ hx)

/-- An editor of the same panel suits the same, if what the panel shows has kept its label. -/
theorem Suits.transfer (h : t.Suits e p) (hchildIds : e'.view.childIds = e.view.childIds)
    (hlabels : ∀ z ∈ e.view.childIds, t'.get? z ≠ none →
      (t'.get? z).map Editor.labelled = (t.get? z).map Editor.labelled) : t'.Suits e' p := by
  refine ⟨hchildIds.trans h.childIds_eq, fun m hm x' hx' => ?_⟩
  have hmem : m.param.id ∈ e.view.childIds := h.childIds_eq ▸ List.mem_map_of_mem hm
  have hlabelled := (hlabels _ hmem (by simp [hx'])).symm
  rw [hx', Option.map_some] at hlabelled
  obtain ⟨x, hx, hlabelled⟩ := Option.map_eq_some_iff.mp hlabelled
  rw [← hlabelled]
  exact h.labels m hm x hx

theorem childIds_eq_of_rebuild_eq (hkind : e.kind = e.param.kind) (h : e.rebuild = e) :
    e.view.childIds = (panelMounts e.param).map (·.param.id) := by
  rw [childIds_of_rebuild_eq hkind h, Param.panel, List.map_map]
  rfl

/-- A settled tree is suited. -/
theorem IsSettled.isSuited (h : t.IsSettled) : t.IsSuited := fun id e he =>
  ⟨childIds_eq_of_rebuild_eq (h.isFaithful.kind_eq id e he) (h.painted id e he), h.labelled id e he⟩

/-- A tree stays suited as long as its editors keep their panels and labels and what their groups
ask for. -/
theorem IsSuited.of_alike (h : t.IsSuited)
    (halike : ∀ id e', t'.get? id = some e' → ∃ e, t.get? id = some e ∧
      e'.view.childIds = e.view.childIds ∧ e'.labelled = e.labelled ∧
      e'.param.asked = e.param.asked) : t'.IsSuited := by
  intro id e' he'
  obtain ⟨e, he, hchildIds, -, hasked⟩ := halike id e' he'
  refine ((h id e he).of_asked_eq hasked).transfer hchildIds fun z _ hz => ?_
  obtain ⟨x', hx'⟩ := Option.ne_none_iff_exists'.mp hz
  obtain ⟨x, hx, -, hlabelled, -⟩ := halike z x' hx'
  rw [hx, hx', Option.map_some, Option.map_some, hlabelled]

/-! ### Groups above a definition -/

/-- A group stands above its member if both have editors. -/
theorem IsFaithful.parent?_of_under (hf : t.IsFaithful) (hh : t.IsHeld) (hid : t.get? id ≠ none)
    (hg : t.get? g ≠ none) (hunder : Under t.forest.nodes id g) : t.parent? id = some g := by
  rcases hh id hid with hroot | ⟨o, ho, hshows⟩
  · exact absurd hunder (hf.not_under hroot)
  · rcases hf.stands o id hshows with hunder' | ⟨u, hu, -, hnone⟩
    · rwa [Forest.under_unique hf.nodup_ids hunder hunder']
    · obtain rfl := Forest.under_unique hf.nodup_ids hunder hu
      exact absurd hnone hg

theorem IsFaithful.replaceDescendant_eq (hf : t.IsFaithful) (he : t.get? g = some e)
    (hne : g ≠ p.id) : e.param.replaceDescendant p = e.param.exchange p := by
  obtain ⟨hnode, hid⟩ := hf.bound g e he
  exact Param.replaceDescendant_eq (Forest.nodup_ids_of_mem_nodes hf.nodup_ids hnode)
    (hid.symm ▸ hne)

/-- An exchange further down than among the members leaves what a panel asks for. -/
theorem IsFaithful.asked_of_not_under (hf : t.IsFaithful) (he : t.get? g = some e)
    (hne : g ≠ p.id) (hunder : ¬ Under t.forest.nodes p.id g) :
    (e.param.replaceDescendant p).asked = e.param.asked := by
  obtain ⟨hnode, hid⟩ := hf.bound g e he
  rw [hf.replaceDescendant_eq he hne]
  refine Param.asked_exchange (hid.symm ▸ hne) fun c hc hcid => ?_
  exact absurd ⟨e.param, hnode, hid, c, hc, hcid⟩ hunder

theorem IsFaithful.below_of_parent? (hf : t.IsFaithful) (hh : t.IsHeld)
    (h : t.parent? id = some g) : TransGen (Under t.forest.nodes) id g :=
  hf.below (hf.shows_of_parent? hh h)

theorem IsFaithful.ne_of_above (hf : t.IsFaithful) (h : TransGen (Under t.forest.nodes) id g) :
    g ≠ id := by
  rintro rfl
  exact Forest.not_transGen_under_self hf.nodup_ids h

/-- A definition of the same face as the one that the editor of its id is bound to upsets
nothing. -/
theorem IsFaithful.not_upsets_of_face_eq (hf : t.IsFaithful) (hh : t.IsHeld) (hs : t.IsSuited)
    (he : t.get? p.id = some e) (hface : p.face = e.param.face) : ¬ t.Upsets p := by
  rintro ⟨g, x, hparent, hx, hnot⟩
  obtain ⟨hnode, hid⟩ := hf.bound p.id e he
  obtain ⟨hnode', hid'⟩ := hf.bound g x hx
  have hne := hf.ne_of_above (hf.below_of_parent? hh hparent)
  refine hnot ((hs g x hx).of_asked_eq ?_)
  rw [hf.replaceDescendant_eq hx hne]
  -- The member that is exchanged is what the editor of the id is bound to.
  refine Param.asked_exchange (hid'.symm ▸ hne) fun c hc hcid => ?_
  have hcnode := Forest.mem_nodes_trans hnode' (Param.mem_nodes_of_mem_children hc)
  rw [hface, Forest.eq_of_id_eq hf.nodup_ids hcnode hnode (hcid.trans hid.symm)]

namespace Reconciled

/-- The mount leaves the groups above it alone. -/
theorem mount_above (h : Reconciled t p m t₂) (hf : t.IsFaithful)
    (hz : TransGen (Under t.forest.nodes) m.param.id z) :
    (t.mount m (t.parent? m.param.id)).get? z = t.get? z ∧
      (t.mount m (t.parent? m.param.id)).parent? z = t.parent? z := by
  refine h.mounting.outside_singleton fun hbelow => ?_
  have habove : TransGen (Under (t.forest.nodes ++ m.param.nodes)) m.param.id z :=
    TransGen.mono (fun _ _ hcg => hcg.mono (List.subset_append_left _ _)) _ _ hz
  exact (h.keeps.isTreeLike hf.nodup_ids).irrefl _ (habove.trans_left hbelow)

/-- After the mount, the groups above it take the definition over, and nothing else changes. -/
theorem exists_climbs (h : Reconciled t p m t₂) (hf : t.IsFaithful) (hh : t.IsHeld) :
    ∃ l, t.Climbs m.param.id l ∧ ∀ z, t₂.get? z =
      if z ∈ l then ((t.mount m (t.parent? m.param.id)).get? z).map (patchEditor m.param)
      else (t.mount m (t.parent? m.param.id)).get? z := by
  obtain ⟨l, hclimbs⟩ := hf.exists_climbs hh h.live
  obtain ⟨⟨e₁, he₁, hparam, -⟩, hparent⟩ := h.mounting.tops m.param (List.mem_singleton_self _)
  -- The mount does not reach the way up, so the walk after it takes the same way.
  have hclimbs₁ : (t.mount m (t.parent? m.param.id)).Climbs m.param.id l := by
    refine hclimbs.congr fun z hz => ?_
    rcases List.mem_cons.mp hz with rfl | hz
    · exact hparent
    · exact (h.mount_above hf ((hf.mem_climbs_iff hh h.live hclimbs).mp hz).2).2
  have hsync := syncAncestors_eq he₁ hclimbs₁
  rw [hparam] at hsync
  have ht₂ := Option.some.inj (h.remount_eq.symm.trans hsync)
  refine ⟨l, hclimbs, fun z => ?_⟩
  rw [ht₂, get?_foldl_patch (List.nodup_cons.mp hclimbs.nodup).2]

theorem get?_of_above (h : Reconciled t p m t₂) (hf : t.IsFaithful) (hh : t.IsHeld)
    (hz : TransGen (Under t.forest.nodes) m.param.id z) :
    t₂.get? z = (t.get? z).map (patchEditor m.param) := by
  obtain ⟨l, hclimbs, hget⟩ := h.exists_climbs hf hh
  rw [hget, (h.mount_above hf hz).1]
  split
  · rfl
  · next hzl =>
    -- Above the definition, only ids without editors are not on the way up.
    have hnone : t.get? z = none := by
      by_contra hlive
      exact hzl ((hf.mem_climbs_iff hh h.live hclimbs).mpr ⟨hlive, hz⟩)
    rw [hnone, Option.map_none]

theorem get?_of_not_above (h : Reconciled t p m t₂) (hf : t.IsFaithful) (hh : t.IsHeld)
    (hz : ¬ TransGen (Under t.forest.nodes) m.param.id z) :
    t₂.get? z = (t.mount m (t.parent? m.param.id)).get? z := by
  obtain ⟨l, hclimbs, hget⟩ := h.exists_climbs hf hh
  rw [hget, if_neg fun hzl => hz ((hf.mem_climbs_iff hh h.live hclimbs).mp hzl).2]

/-- When the groups above take the definition over, labels stay. -/
theorem map_labelled_eq (h : Reconciled t p m t₂) (z : ParamId) :
    (t₂.get? z).map Editor.labelled =
      ((t.mount m (t.parent? m.param.id)).get? z).map Editor.labelled := by
  have hunmoved : Unmoved (t.mount m (t.parent? m.param.id)) t₂ :=
    (synced_of_syncAncestors h.remount_eq).unmoved
  have hstamp := congrArg (Option.map Editor.Stamp.labelled) (hunmoved.stamp_eq z)
  rwa [Option.map_map, Option.map_map] at hstamp

theorem labels_iff (h : Reconciled t p m t₂) :
    t₂.Labels m' ↔ (t.mount m (t.parent? m.param.id)).Labels m' := by
  rw [labels_iff_map, labels_iff_map, h.map_labelled_eq]

/-- Whatever the mount comes to mount is labelled as asked for. -/
theorem labels_of_reaches (h : Reconciled t p m t₂) (hf : t.IsFaithful)
    (hreaches : m.Reaches (t.parent? m.param.id) m' k) : t₂.Labels m' :=
  h.labels_iff.mpr (labels_mountWithin (h.keeps.isTreeLike hf.nodup_ids) (Nat.le_refl _)
    h.keeps.1 (List.subset_append_right _ _) (hf.isOrderly (List.subset_append_left _ _)) hreaches)

/-- Of what the panel of a group above the definition shows, only the definition itself has been
mounted. -/
theorem eq_of_shows_above (h : Reconciled t p m t₂) (hf : t.IsFaithful)
    (hg : TransGen (Under t.forest.nodes) m.param.id g) (hz : t.Shows g z)
    (hzm : ReflTransGen (Under (t.forest.nodes ++ m.param.nodes)) z m.param.id) :
    z = m.param.id := by
  rcases reflTransGen_iff_eq_or_transGen.mp hzm with hid | hzm
  · exact hid.symm
  · -- Between an id and the panel that it stands in there is no editor.
    obtain ⟨x, hx, -⟩ := TransGen.head'_iff.mp (hf.below hz)
    have hbelow := h.keeps.transGen_under hzm (Forest.mem_ids_of_under hx).1
    rcases hf.eq_or_below_of_shows hz h.live hbelow with hid | hgm
    · exact absurd hid.symm (hf.ne_of_above hg)
    · exact absurd (hg.trans hgm) (Forest.not_transGen_under_self hf.nodup_ids)

/-- What the panel of a group above the definition shows keeps its label. -/
theorem map_labelled_of_shows_above (h : Reconciled t p m t₂) (hf : t.IsFaithful)
    (hg : TransGen (Under t.forest.nodes) m.param.id g) (hz : t.Shows g z) :
    (t₂.get? z).map Editor.labelled = (t.get? z).map Editor.labelled := by
  by_cases hzm : z = m.param.id
  · obtain ⟨e, he, hlabelled⟩ := h.editor
    obtain ⟨⟨e₁, he₁, -⟩, -⟩ := h.mounting.tops m.param (List.mem_singleton_self _)
    have hself := h.labels_iff.mp (h.labels_of_reaches hf .self) e₁ he₁
    rw [h.map_labelled_eq, hzm, he, he₁, Option.map_some, Option.map_some, hself, hlabelled]
  · have hout : ¬ ReflTransGen (Under (t.forest.nodes ++ m.param.nodes)) z m.param.id :=
      fun hbelow => hzm (h.eq_of_shows_above hf hg hz hbelow)
    rw [h.map_labelled_eq, (h.mounting.outside_singleton hout).1]

/-- Of what the panel of any other group shows that the mount has left alone, nothing has been
mounted. -/
theorem unplaced_of_shows (h : Reconciled t p m t₂) (hf : t.IsFaithful) (hh : t.IsHeld)
    (hg : ¬ TransGen (Under t.forest.nodes) m.param.id g)
    (hout : Unplaced [m.param] (t.parent? m.param.id) g)
    (hlive : (t.mount m (t.parent? m.param.id)).get? g ≠ none) (hz : t.Shows g z) :
    Unplaced [m.param] (t.parent? m.param.id) z := by
  -- Otherwise the id stands at or below the definition. The group that shows it is then above the
  -- definition, or the definition itself, or gone with the panel it stood in.
  by_contra hplaced
  obtain ⟨q, k, hq, rfl⟩ := not_unplaced_singleton.mp hplaced
  obtain ⟨x, hx, -⟩ := TransGen.head'_iff.mp (hf.below hz)
  have hat := (h.keeps.fits hf.nodup_ids).mem_idsAt hf.nodup_ids (hf.mem_ids h.live) hq.id_mem_ids
    (Forest.mem_ids_of_under hx).1
  rcases reflTransGen_iff_eq_or_transGen.mp ((Forest.mem_idsAt_iff hf.nodup_ids).mp hat).2 with
    hid | hbelow
  · exact hg (hid ▸ hf.below hz)
  · rcases hf.eq_or_below_of_shows hz h.live hbelow with hid | hgm
    · exact unplaced_singleton.mp hout _ _ .self hid
    · exact hlive (h.mounting.get?_eq_none_of_below hf hh h.live hgm hout)

/-- An editor that the mount has placed suits its definition. -/
theorem suits_of_placed (h : Reconciled t p m t₂) (hf : t.IsFaithful)
    (hq : m.param.Placed (t.parent? m.param.id) q k)
    (he : (t.mount m (t.parent? m.param.id)).get? q.id = some e) : t₂.Suits e e.param := by
  obtain ⟨⟨e', he', hparam, hkind, hpainted⟩, -⟩ := h.mounting.painted hq (by simp [he])
  obtain rfl := Option.some.inj (he.symm.trans he')
  refine ⟨childIds_eq_of_rebuild_eq (hkind.trans (by rw [hparam])) hpainted, fun c hc => ?_⟩
  obtain ⟨mq, hmq, rfl⟩ := hq.exists_reaches m.labelled
  exact h.labels_of_reaches hf (hmq.panel (hparam ▸ hc))

/-- A group above suits the definition that it has taken over as well as before it did. -/
theorem suits_above_iff (h : Reconciled t p m t₂) (hf : t.IsFaithful)
    (hg : TransGen (Under t.forest.nodes) m.param.id g) (he : t.get? g = some e) :
    t₂.Suits (patchEditor m.param e) q ↔ t.Suits e q := by
  have hlabels : ∀ z ∈ e.view.childIds,
      (t₂.get? z).map Editor.labelled = (t.get? z).map Editor.labelled := fun z hz =>
    h.map_labelled_of_shows_above hf hg ⟨e, he, hz⟩
  have hchildIds : (patchEditor m.param e).view.childIds = e.view.childIds := by
    rw [view_patchEditor]
  exact ⟨fun hs₂ => hs₂.transfer hchildIds.symm fun z hz _ => (hlabels z (hchildIds ▸ hz)).symm,
    fun hs => hs.transfer hchildIds fun z hz _ => hlabels z hz⟩

/-- An editor that the mount has left alone suits its definition as before, unless it is that of a
group above. -/
theorem suits_of_unplaced (h : Reconciled t p m t₂) (hf : t.IsFaithful) (hh : t.IsHeld)
    (hs : t.IsSuited) (hg : ¬ TransGen (Under t.forest.nodes) m.param.id g)
    (hout : Unplaced [m.param] (t.parent? m.param.id) g)
    (he : (t.mount m (t.parent? m.param.id)).get? g = some e) : t₂.Suits e e.param := by
  have hlive : (t.mount m (t.parent? m.param.id)).get? g ≠ none := by simp [he]
  have heold := (h.mounting.of_ne_none hout hlive).1.symm.trans he
  refine (hs g e heold).transfer rfl fun z hz hzlive => ?_
  have hzout := h.unplaced_of_shows hf hh hg hout hlive ⟨e, heold, hz⟩
  rw [ne_eq, h.sameShown.get?_eq_none_iff] at hzlive
  rw [h.map_labelled_eq, (h.mounting.of_ne_none hzout hzlive).1]

/-- A redefinition leaves a suited tree suited exactly if the mount upsets nothing. -/
theorem isSuited_iff (h : Reconciled t p m t₂) (hf : t.IsFaithful) (hh : t.IsHeld)
    (hs : t.IsSuited) : t₂.IsSuited ↔ ¬ t.Upsets m.param := by
  constructor
  · rintro hs₂ ⟨g, e, hparent, he, hnot⟩
    have hg := hf.below_of_parent? hh hparent
    have hget : t₂.get? g = some (patchEditor m.param e) := by
      rw [h.get?_of_above hf hh hg, he, Option.map_some]
    have hsuits := hs₂ g _ hget
    rw [param_patchEditor, h.suits_above_iff hf hg he] at hsuits
    exact hnot hsuits
  · -- An editor is that of a group above, or left alone by the mount, or placed by it.
    intro hupsets g e₂ he₂
    by_cases hg : TransGen (Under t.forest.nodes) m.param.id g
    · rw [h.get?_of_above hf hh hg] at he₂
      obtain ⟨e, he, rfl⟩ := Option.map_eq_some_iff.mp he₂
      rw [param_patchEditor, h.suits_above_iff hf hg he]
      -- Only for the group right above it is the definition one of the members.
      by_cases hunder : Under t.forest.nodes m.param.id g
      · have hparent := hf.parent?_of_under hh h.live (by simp [he]) hunder
        by_contra hnot
        exact hupsets ⟨g, e, hparent, he, hnot⟩
      · exact (hs g e he).of_asked_eq (hf.asked_of_not_under he (hf.ne_of_above hg) hunder)
    · rw [h.get?_of_not_above hf hh hg] at he₂
      by_cases hout : Unplaced [m.param] (t.parent? m.param.id) g
      · exact h.suits_of_unplaced hf hh hs hg hout he₂
      · obtain ⟨q, k, hq, rfl⟩ := not_unplaced_singleton.mp hout
        exact h.suits_of_placed hf hq he₂

end Reconciled

/-! ### One change -/

/-- Exchanging a definition within the group that holds it upsets nothing: what that group is called
and which ids it shows stay. -/
theorem IsFaithful.not_upsets_exchange (hf : t.IsFaithful) (hh : t.IsHeld) (hs : t.IsSuited)
    (he : t.get? id = some e) (hp : p.id ∈ e.param.descendantIds) :
    ¬ t.Upsets (e.param.replaceDescendant p) := by
  obtain ⟨hnode, rfl⟩ := hf.bound id e he
  have hbelow : TransGen (Under t.forest.nodes) p.id e.param.id :=
    (Forest.transGen_under_iff hf.nodup_ids).mpr ⟨e.param, hnode, rfl, hp⟩
  have hne := hf.ne_of_above hbelow
  refine hf.not_upsets_of_face_eq (e := e) hh hs (by rwa [Param.id_replaceDescendant]) ?_
  rw [hf.replaceDescendant_eq he hne, Param.face_exchange_of_ne hne]

/-- A change puts a definition in place of that of an editor and upsets the panel in which the
editor stands. -/
def UpsetsBy (t : EditorTree) (c : Change) : Prop := ∃ p, c = .reconcile p ∧ t.Upsets p

theorem upsetsBy_reconcile_iff : t.UpsetsBy (.reconcile p) ↔ t.Upsets p := by
  simp [UpsetsBy]

theorem not_upsetsBy_interact (id : ParamId) (interaction : Interaction) :
    ¬ t.UpsetsBy (.interact id interaction) := by
  simp [UpsetsBy]

theorem not_upsetsBy_bindValue (id : ParamId) (val : Value) : ¬ t.UpsetsBy (.bindValue id val) := by
  simp [UpsetsBy]

theorem IsFaithful.not_upsets_of_dead (hf : t.IsFaithful) (hdead : t.get? p.id = none) :
    ¬ t.Upsets p := by
  rintro ⟨g, e, hparent, -⟩
  exact absurd ((hf.isTidy _ hdead).symm.trans hparent) (by simp)

/-- A redefinition leaves a suited tree suited exactly if it upsets nothing. -/
theorem isSuited_reconcile_iff (hf : t.IsFaithful) (hh : t.IsHeld) (hs : t.IsSuited)
    (hp : p.id ∈ t.forest.ids → t.forest.Keeps p)
    (h : t.change (.reconcile p) = some t') : t'.IsSuited ↔ ¬ t.Upsets p := by
  by_cases hmem : p.id ∈ t.forest.ids
  · obtain ⟨m, t₂, htaken⟩ := hf.reconcile hh (hp hmem) hmem
    obtain rfl : t₂ = t' := by simpa [change, htaken.reconcile_eq] using h
    rw [htaken.isSuited_iff hf hh hs]
    have hmount := htaken.mountFor_eq
    cases hself : t.get? p.id with
    | some e =>
      simp only [mountFor, hself, Option.some_inj] at hmount
      rw [← hmount]
    | none =>
      -- The definition has been exchanged within another one, whose editor was painted anew.
      obtain ⟨host, e, hnearest, he, hbelow⟩ := hf.nearestHost hh hmem hself
      simp only [mountFor, hself, hnearest, he, Option.map_some, Option.bind_some,
        Option.some_inj] at hmount
      rw [← hmount]
      exact iff_of_true (hf.not_upsets_exchange hh hs he hbelow) (hf.not_upsets_of_dead hself)
  · obtain ⟨-, hreconcile⟩ := hf.reconcile_of_notMem hh hmem
    obtain rfl : t = t' := by simpa [change, hreconcile] using h
    have hdead : t.get? p.id = none := by
      by_contra hlive
      exact hmem (hf.mem_ids hlive)
    exact iff_of_true hs (hf.not_upsets_of_dead hdead)

/-- A stored value changes nothing in what panels ask for. -/
theorem IsSuited.store (hs : t.IsSuited) (hf : t.IsFaithful) (hh : t.IsHeld)
    (he : t.get? id = some e) (hstored : e.Stored e')
    (hsync : (t.setEditor id e').syncAncestors id = some t') : t'.IsSuited := by
  obtain ⟨t₂, hsync₂, -, hf₂, hskeleton, -⟩ := hf.store hh he hstored
  obtain rfl := Option.some.inj (hsync₂.symm.trans hsync)
  -- From before the value is stored to after it is taken over: panels and labels stay, and so do
  -- the skeletons, which decide what is asked for.
  refine hs.of_alike fun z x₂ hx₂ => ?_
  obtain ⟨x₁, hx₁, hrebound⟩ := (synced_of_syncAncestors hsync).rebound z x₂ hx₂
  have hold : ∃ x, t.get? z = some x ∧ x₁.view.childIds = x.view.childIds ∧
      x₁.labelled = x.labelled := by
    rw [get?_setEditor] at hx₁
    split at hx₁
    · next hz =>
      obtain rfl := Option.some.inj hx₁
      exact ⟨e, hz ▸ he, hstored.childIds_eq, hstored.labelled_eq⟩
    · exact ⟨x₁, hx₁, rfl, rfl⟩
  obtain ⟨x, hx, hchildIds, hlabelled⟩ := hold
  refine ⟨x, hx, by rw [hrebound.view_eq, hchildIds], ?_, ?_⟩
  · exact (congrArg Editor.Stamp.labelled hrebound.stamp_eq).trans hlabelled
  · exact (Param.asked_eq_of_skeleton_eq (hf.skeleton_eq hf₂ hskeleton hx hx₂)).symm

/-- Opening or closing a panel changes nothing in it. -/
theorem IsSuited.setExpanded (hs : t.IsSuited) (he : t.get? id = some e) (expanded : Bool) :
    (t.setEditor id (e.setExpanded expanded)).IsSuited := by
  refine hs.of_alike fun z x hx => ?_
  rw [get?_setEditor] at hx
  split at hx
  · next hz =>
    obtain rfl := Option.some.inj hx
    exact ⟨e, hz ▸ he, Editor.childIds_setExpanded expanded e, rfl, rfl⟩
  · exact ⟨x, hx, rfl, rfl, rfl⟩

theorem IsSuited.interact (hs : t.IsSuited) (hf : t.IsFaithful) (hh : t.IsHeld)
    {interaction : Interaction} (h : t.change (.interact id interaction) = some t') :
    t'.IsSuited := by
  rcases interact_cases (hf.kind_eq id) interaction with ⟨problem, heq⟩ | ⟨e, he, -, -, heq⟩ |
    ⟨e, e', i, name, c, c', he, -, hstored, -, -, -, heq⟩
  · obtain rfl : t = t' := by simpa [change, heq] using h
    exact hs
  · obtain rfl : t.setEditor id (e.setExpanded (!e.expanded)) = t' := by
      simpa [change, heq] using h
    exact hs.setExpanded he _
  · exact hs.store hf hh he hstored (by simpa [change, heq, Function.comp_def] using h)

theorem IsSuited.bindValue (hs : t.IsSuited) (hf : t.IsFaithful) (hh : t.IsHeld)
    {val : Value} (h : t.change (.bindValue id val) = some t') : t'.IsSuited := by
  rcases bindValue_cases (hf.kind_eq id) val with ⟨problem, heq⟩ | ⟨e, e', he, hstored, -, heq⟩
  · obtain rfl : t = t' := by simpa [change, heq] using h
    exact hs
  · exact hs.store hf hh he hstored (by simpa [change, heq, Function.comp_def] using h)

/-- A change leaves a suited tree suited exactly if it upsets nothing. -/
theorem isSuited_change_iff (hf : t.IsFaithful) (hh : t.IsHeld) (hs : t.IsSuited)
    (hsame : f.SameGroups t.forest) (hadmits : f.Admits (c :: changes))
    (h : t.change c = some t') : t'.IsSuited ↔ ¬ t.UpsetsBy c := by
  cases c with
  | reconcile p =>
    rw [upsetsBy_reconcile_iff]
    exact isSuited_reconcile_iff hf hh hs
      (fun hmem => hsame.keeps (hadmits.1 ((hsame.mem_ids_iff p.id).mp hmem))) h
  | interact id interaction =>
    exact iff_of_true (hs.interact hf hh h) (not_upsetsBy_interact id interaction)
  | bindValue id val => exact iff_of_true (hs.bindValue hf hh h) (not_upsetsBy_bindValue id val)

/-! ### Runs -/

/-- The changes can be made one after the other, and all trees from the present one on are
suited. -/
def StaysSuited (t : EditorTree) : List Change → Prop
  | [] => t.IsSuited
  | c :: rest => t.IsSuited ∧ ∃ t', t.change c = some t' ∧ t'.StaysSuited rest

/-- None of the changes, made one after the other, upsets a panel. -/
def NothingUpsets (t : EditorTree) : List Change → Prop
  | [] => True
  | c :: rest => ¬ t.UpsetsBy c ∧ ∀ t', t.change c = some t' → t'.NothingUpsets rest

theorem StaysSuited.isSuited (h : t.StaysSuited changes) : t.IsSuited := by
  cases changes with
  | nil => exact h
  | cons c rest => exact h.1

/-- From a suited tree, the trees of a run are suited exactly if nothing upsets a panel. -/
theorem staysSuited_iff (hf : t.IsFaithful) (hh : t.IsHeld) (hs : t.IsSuited) (hnodup : f.ids.Nodup)
    (hsame : f.SameGroups t.forest) (h : f.Admits changes) :
    t.StaysSuited changes ↔ t.NothingUpsets changes := by
  induction changes generalizing t f with
  | nil => exact iff_of_true hs trivial
  | cons c rest ih =>
    obtain ⟨t₁, f₁, ⟨heq, hf₁, hnodup₁, hsame₁, hh₁, -⟩, hrest⟩ :=
      exists_leadsTo hf hh hnodup hsame h
    -- The next tree is suited exactly if this change upsets nothing, so one case remains.
    simp only [StaysSuited, NothingUpsets, heq, Option.some_inj, exists_eq_left', forall_eq', hs,
      true_and, ← isSuited_change_iff hf hh hs hsame h heq]
    constructor
    · intro hstays
      exact ⟨hstays.isSuited, (ih hf₁ hh₁ hstays.isSuited hnodup₁ hsame₁ hrest).mp hstays⟩
    · rintro ⟨hs₁, hnothing⟩
      exact (ih hf₁ hh₁ hs₁ hnodup₁ hsame₁ hrest).mpr hnothing

/-- A tree is loaded from definitions without repeated ids and changed by redefinitions that keep
every known id in its group, by interactions and by pushed values, in any order. Then every editor
of every tree on the way shows what the panel of the definition that it is bound to asks for, with
labels as asked for, exactly if no redefinition makes the group above its editor ask for something
else than its panel shows. -/
theorem staysSuited_load_iff (t : EditorTree) {ps : List Param} {changes : List Change}
    (hps : (Forest.ids ps).Nodup) (h : Forest.Admits ps changes) :
    (t.load ps).StaysSuited changes ↔ (t.load ps).NothingUpsets changes := by
  have hsettled := isSettled_load t hps
  have hforest : (t.load ps).forest = ps := (isSound_load t hps).2.2
  refine staysSuited_iff hsettled.isFaithful hsettled.isSound.held hsettled.isSuited hps ?_ h
  rw [hforest]
  exact ⟨fun _ => Iff.rfl, fun _ _ => Iff.rfl⟩

/-- The value of an optional value, which has no editor, comes in with a further parameter; then the
panel is opened, and the new parameter gets a value. -/
def extending : List Change :=
  [.reconcile (.group ⟨3⟩ ".enabled_value" [("low", .leaf ⟨4⟩ "low" (.flag true)),
      ("high", .leaf ⟨5⟩ "high" (.flag true)), ("mid", .leaf ⟨6⟩ "mid" (.flag true))] []),
    .interact ⟨1⟩ .toggle, .bindValue ⟨6⟩ (.bool false)]

theorem staysSuited_extending :
    (Forest.ids [optionalNoise]).Nodup ∧ Forest.Admits [optionalNoise] extending ∧
    (empty.load [optionalNoise]).StaysSuited extending := by
  have hids : (Forest.ids [optionalNoise]).Nodup := by decide
  have hadmits : Forest.Admits [optionalNoise] extending := by decide
  refine ⟨hids, hadmits, (staysSuited_load_iff empty hids hadmits).mpr ?_⟩
  refine ⟨?_, fun t₁ _ => ⟨not_upsetsBy_interact _ _, fun t₂ _ =>
    ⟨not_upsetsBy_bindValue _ _, fun _ _ => trivial⟩⟩⟩
  have hf := (isSettled_load empty hids).isFaithful
  have hdead : ((empty.load [optionalNoise]).get? ⟨3⟩).isNone = true := by decide
  rw [upsetsBy_reconcile_iff]
  exact hf.not_upsets_of_dead (Option.isNone_iff_eq_none.mp hdead)

/-- An optional value that is no group: it stands without a label. -/
def optionalSwitch : Param :=
  .group ⟨1⟩ "noise" [("on", .leaf ⟨2⟩ ".enabled" (.flag true)),
    ("value", .leaf ⟨3⟩ ".enabled_value" (.flag true))] []

/-- A panel is opened, and a parameter in it comes in under another name. -/
def retitling : List Change :=
  [.interact ⟨1⟩ .toggle, .reconcile (.leaf ⟨3⟩ "level" (.flag true))]

/-- The group is no optional value any more, and its second parameter still stands without a
label. -/
theorem not_staysSuited_retitling :
    (Forest.ids [optionalSwitch]).Nodup ∧ Forest.Admits [optionalSwitch] retitling ∧
    ¬ (empty.load [optionalSwitch]).StaysSuited retitling ∧
    (retitling.foldlM change (empty.load [optionalSwitch])).bind outline =
      some "v noise  (#1)\n  .enabled: [x]  (#2)\n  [x]  (#3)\n" := by
  refine ⟨by decide, by decide, ?_, by decide⟩
  rintro ⟨-, t₁, ht₁, -, t₂, ht₂, hs⟩
  have hlabels : ((empty.load [optionalSwitch]).change (.interact ⟨1⟩ .toggle)).bind (fun t =>
      (t.change (.reconcile (.leaf ⟨3⟩ "level" (.flag true)))).bind fun t =>
        (t.get? ⟨1⟩).bind fun e => (t.get? ⟨3⟩).map fun x => (e.param.asked, x.labelled)) =
      some ([(⟨2⟩, true), (⟨3⟩, true)], false) := by decide
  rw [ht₁, Option.bind_some, ht₂, Option.bind_some] at hlabels
  obtain ⟨e, he, hx⟩ := Option.bind_eq_some_iff.mp hlabels
  obtain ⟨x, hx, hpair⟩ := Option.map_eq_some_iff.mp hx
  obtain ⟨hasked, hlabelled⟩ := Prod.mk.inj hpair
  have hmem : (⟨3⟩, true) ∈ e.param.asked := by simp [hasked]
  obtain ⟨m, hm, hask⟩ := List.mem_map.mp hmem
  obtain ⟨hid, htrue⟩ := Prod.mk.inj hask
  have hlabel := (hs ⟨1⟩ e he).labels m hm x (hid.symm ▸ hx)
  rw [hlabelled, htrue] at hlabel
  exact Bool.false_ne_true hlabel

end EditorTree

end LiveTuner
