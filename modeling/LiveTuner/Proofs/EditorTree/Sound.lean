import LiveTuner.Proofs.EditorTree.Ancestors
import LiveTuner.Proofs.EditorTree.Mount

/-!
# Sound editor trees

In a sound tree, panels and recorded groups are two views of the same thing: what a panel shows has
an editor that is recorded below the group of the panel, and every editor is topmost or stands in
the panel it is recorded below. A mount keeps a tree sound exactly if it moves nothing, that is, if
no id that has an editor is placed in another panel than the one it stands in.

## Main definitions

* `EditorTree.forest` — the definitions that the topmost editors are bound to
* `EditorTree.IsHeld` — editors stand in panels
* `EditorTree.IsSound` — so they do, and panels show editors
* `EditorTree.IsFaithful` — editors are bound to the nodes of the forest
* `EditorTree.Moves` — a mount places an id in another panel than the one it stands in

## Main results

* `EditorTree.Mounting.isHeld` — a mount keeps editors in panels, whatever it moves
* `EditorTree.Mounting.isLinked_of_stays`, `EditorTree.Mounting.stays_of_isLinked` — a mount keeps a
  tree linked exactly if it moves nothing
* `EditorTree.IsFaithful.sync` — the groups above take over what has changed below them
-/

namespace LiveTuner

open Relation

namespace EditorTree

variable {ns : List Param} {t t₁ t₂ : EditorTree} {p q : Param} {par g : Option ParamId}
  {a c id i z : ParamId} {l : List ParamId}

/-- The definitions that the topmost editors are bound to. -/
def forest (t : EditorTree) : Forest := t.roots.filterMap fun id => (t.get? id).map (·.param)

/-- Panels show editors, and editors stand in panels. -/
structure IsLinked (t : EditorTree) : Prop where
  /-- What a panel shows has an editor, recorded below the group of the panel. -/
  shown : ∀ g c, t.Shows g c → t.get? c ≠ none ∧ t.parent? c = some g
  /-- Every editor is topmost, or stands in the panel of the group it is recorded below. -/
  held : ∀ id, t.get? id ≠ none → id ∈ t.roots ∨ ∃ g, t.parent? id = some g ∧ t.Shows g id

/-- Every editor is topmost, or stands in the panel of the group it is recorded below. -/
def IsHeld (t : EditorTree) : Prop :=
  ∀ id, t.get? id ≠ none → id ∈ t.roots ∨ ∃ g, t.parent? id = some g ∧ t.Shows g id

/-- Panels show editors, editors stand in panels, and the topmost ids have editors. -/
structure IsSound (t : EditorTree) : Prop extends IsLinked t where
  /-- The topmost ids have editors. -/
  topmost : ∀ id ∈ t.roots, t.get? id ≠ none

/-- The editors are bound to the nodes of the forest, in which no id stands twice, and show what
stands below their groups. -/
structure IsFaithful (t : EditorTree) : Prop where
  /-- No id stands twice. -/
  nodup_ids : t.forest.ids.Nodup
  /-- No group is above a topmost id. -/
  topmost : ∀ id ∈ t.roots, t.get? id ≠ none ∧ t.parent? id = none
  /-- An editor is bound to the node of its id. -/
  bound : ∀ id e, t.get? id = some e → e.param ∈ t.forest.nodes ∧ e.param.id = id
  /-- An editor is of the kind of the parameter it is bound to. -/
  kind_eq : ∀ id e, t.get? id = some e → e.kind = e.param.kind
  /-- No group is recorded above an id without an editor. -/
  isTidy : t.IsTidy
  /-- A panel shows members of its group, or members of a member that has no editor. -/
  stands : ∀ g c, t.Shows g c → Under t.forest.nodes c g ∨
    ∃ u, Under t.forest.nodes c u ∧ Under t.forest.nodes u g ∧ t.get? u = none

/-- Mounting a definition in place of the editor of its id puts an id into another panel than the
one it stands in. -/
def Moves (t : EditorTree) (p : Param) : Prop :=
  ∃ q g o, p.Placed (t.parent? p.id) q (some g) ∧ t.parent? q.id = some o ∧ o ≠ g

/-! ### Mounts -/

theorem placedAmong_singleton : PlacedAmong [p] par q g ↔ p.Placed par q g := by
  simp [PlacedAmong]

theorem unplaced_singleton : Unplaced [p] par z ↔ ∀ q g, p.Placed par q g → q.id ≠ z := by
  simp [Unplaced, placedAmong_singleton]

theorem not_unplaced_singleton : ¬ Unplaced [p] par z ↔ ∃ q g, p.Placed par q g ∧ q.id = z := by
  simp [unplaced_singleton]

namespace Mounting

theorem painted (h : Mounting ns [p] par t t₁) (hq : p.Placed par q g)
    (hget : t₁.get? q.id ≠ none) : t₁.Painted q g :=
  (h.placed q g (placedAmong_singleton.mpr hq)).resolve_right hget

/-- After a mount, an editor is bound to a node of the definition, or is as it was. -/
theorem bound_or (h : Mounting ns [p] par t t₁) {e : Editor} (he : t₁.get? z = some e) :
    e.param ∈ p.nodes ∧ e.param.id = z ∨ Unplaced [p] par z ∧ t.get? z = some e := by
  have hstill : t₁.get? z ≠ none := by simp [he]
  by_cases hz : Unplaced [p] par z
  · exact Or.inr ⟨hz, (h.of_ne_none hz hstill).1.symm.trans he⟩
  · obtain ⟨q, g, hq, rfl⟩ := not_unplaced_singleton.mp hz
    obtain ⟨⟨e', he', hparam, -⟩, -⟩ := h.painted hq hstill
    obtain rfl := Option.some.inj (he.symm.trans he')
    rw [hparam]
    exact Or.inl ⟨hq.mem_nodes, rfl⟩

/-- After a mount, a panel shows what it showed, or what the definition has at its group. -/
theorem shows_or (h : Mounting ns [p] par t t₁) (hnodup : p.ids.Nodup) {g : ParamId}
    (hgc : t₁.Shows g c) :
    Unplaced [p] par g ∧ t.Shows g c ∨ Under p.nodes c g ∨
      ∃ u, Under p.nodes c u ∧ Under p.nodes u g ∧ u ∈ p.ids ∧ Unplaced [p] par u := by
  have hstill := hgc.get?_ne_none
  by_cases hg : Unplaced [p] par g
  · exact Or.inl ⟨hg, hgc.of_get?_eq (h.of_ne_none hg hstill).1.symm⟩
  · obtain ⟨b, k, hb, rfl⟩ := not_unplaced_singleton.mp hg
    obtain ⟨q, hq, rfl⟩ := List.mem_map.mp ((h.painted hb hstill).shows_iff.mp hgc)
    have hmember : ∀ {x y : Param}, x ∈ y.children → y ∈ p.nodes → Under p.nodes x.id y.id :=
      fun hx hy => ⟨_, hy, rfl, _, hx, rfl⟩
    have hnodup' := Param.nodup_ids_of_mem_nodes hnodup hb.mem_nodes
    rcases Param.mem_children_of_mem_panel hnodup' hq with hchild | ⟨u, hu, hqu, hout⟩
    · exact Or.inr (Or.inl (hmember hchild hb.mem_nodes))
    · have hup := Param.mem_nodes_trans hb.mem_nodes (Param.mem_nodes_of_mem_children hu)
      refine Or.inr (Or.inr ⟨u.id, hmember hqu hup, hmember hu hb.mem_nodes,
        Param.mem_ids_of_mem_nodes hup, ?_⟩)
      exact unplaced_singleton.mpr fun q g hq => hb.id_ne_of_notMem hnodup hu hout hq

/-- If a mount moves nothing, nothing of what it places is taken away again. -/
theorem painted_of_stays (h : Mounting ns [p] par t t₁) (hnodup : p.ids.Nodup) (hl : t.IsLinked)
    (hstay : ∀ q g o, p.Placed par q g → t.parent? q.id = some o → g = some o)
    (hq : p.Placed par q g) : t₁.Painted q g := by
  -- By the way in which `q` is placed: the group that shows it is painted already.
  induction hq with
  | self => exact h.tops p (List.mem_singleton_self p)
  | @panel b c g hb hc ih =>
    refine h.painted (hb.panel hc) fun hnone => ?_
    have hplaced : ¬ Unplaced [p] par c.id := not_unplaced_singleton.mpr ⟨c, _, hb.panel hc, rfl⟩
    -- Whatever took `c` away has to be where `c` stood, and `c` stays in the panel of `b`.
    have hviewer : ∀ {w}, t.Shows w c.id → w = b.id := fun hw =>
      (Option.some.inj (hstay c _ _ (hb.panel hc) (hl.shown _ _ hw).2)).symm
    rcases h.cause c.id hnone (Or.inr hplaced) with ⟨b', g', hb', hshows, hout⟩ |
      ⟨w, hw, hshows, -⟩ | ⟨b', g', hb', hgone, hmem⟩
    · have hid := hviewer hshows
      obtain ⟨rfl, -⟩ := (placedAmong_singleton.mp hb').unique hnodup hb hid
      exact hout (List.mem_map_of_mem hc)
    · have hid := hviewer hshows
      exact unplaced_singleton.mp hw b g hb hid.symm
    · obtain ⟨c', hc', hid⟩ := List.mem_map.mp hmem
      have hc'' := (placedAmong_singleton.mp hb').panel hc'
      have hviewer' := (hc''.unique hnodup (hb.panel hc) hid).2
      exact ih.get?_ne_none (Option.some.inj hviewer' ▸ hgone)

/-- If a mount moves nothing, what a panel shows has an editor that is recorded below its group. -/
theorem shown_of_stays (h : Mounting ns [p] par t t₁) (hnodup : p.ids.Nodup) (hl : t.IsLinked)
    (hstay : ∀ q g o, p.Placed par q g → t.parent? q.id = some o → g = some o) {g : ParamId}
    (hgc : t₁.Shows g c) : t₁.get? c ≠ none ∧ t₁.parent? c = some g := by
  by_cases hg : Unplaced [p] par g
  · -- The panel of `g` is as it was. What it shows is placed there again or has been left alone.
    obtain ⟨hc, hparent⟩ :=
      hl.shown g c (hgc.of_get?_eq (h.of_ne_none hg hgc.get?_ne_none).1.symm)
    by_cases hcout : Unplaced [p] par c
    · suffices hstill : t₁.get? c ≠ none from
        ⟨hstill, (h.of_ne_none hcout hstill).2.trans hparent⟩
      intro hnone
      have hviewer : ∀ {w}, t.Shows w c → w = g := fun hw =>
        Option.some.inj ((hl.shown _ _ hw).2.symm.trans hparent)
      rcases h.cause c hnone (Or.inl hc) with ⟨b, k, hb, hshows, -⟩ | ⟨w, -, hshows, hgone⟩ |
        ⟨b, k, hb, -, hmem⟩
      · exact hg b k hb (hviewer hshows)
      · exact hgc.get?_ne_none (hviewer hshows ▸ hgone)
      · obtain ⟨q, hq, rfl⟩ := List.mem_map.mp hmem
        exact unplaced_singleton.mp hcout q _ ((placedAmong_singleton.mp hb).panel hq) rfl
    · obtain ⟨q, k, hq, rfl⟩ := not_unplaced_singleton.mp hcout
      have hpainted := h.painted_of_stays hnodup hl hstay hq
      exact ⟨hpainted.get?_ne_none, hpainted.2.trans (hstay q k g hq hparent)⟩
  · obtain ⟨b, k, hb, rfl⟩ := not_unplaced_singleton.mp hg
    have hpainted := h.painted_of_stays hnodup hl hstay hb
    obtain ⟨q, hq, rfl⟩ := List.mem_map.mp (hpainted.shows_iff.mp hgc)
    have hpainted' := h.painted_of_stays hnodup hl hstay (hb.panel hq)
    exact ⟨hpainted'.get?_ne_none, hpainted'.2⟩

/-- An editor that a mount has left alone is topmost or stands in a panel, as before. -/
theorem held_of_unplaced (h : Mounting ns [p] par t t₁) (hh : t.IsHeld)
    (hout : Unplaced [p] par z) (hz : t₁.get? z ≠ none) :
    z ∈ t₁.roots ∨ ∃ g, t₁.parent? z = some g ∧ t₁.Shows g z := by
  have hsame := h.of_ne_none hout hz
  rcases hh z (hsame.1 ▸ hz) with hroot | ⟨g, hparent, hshows⟩
  · exact Or.inl (h.roots_eq ▸ hroot)
  · by_cases hg : Unplaced [p] par g
    · have hstill : t₁.get? g ≠ none := fun hgone => hz (h.cascade g z hg hshows hgone)
      exact Or.inr ⟨g, hsame.2.trans hparent, hshows.of_get?_eq (h.of_ne_none hg hstill).1⟩
    · -- A placed group that shows `z` no longer has taken it away.
      obtain ⟨b, k, hb, rfl⟩ := not_unplaced_singleton.mp hg
      refine absurd (h.stale b k z (placedAmong_singleton.mpr hb) hshows fun hmem => ?_) hz
      obtain ⟨q, hq, rfl⟩ := List.mem_map.mp hmem
      exact unplaced_singleton.mp hout q _ (hb.panel hq) rfl

/-- After a mount every editor is topmost or stands in a panel, as before, even if the mount has
moved some of them and taken others away. -/
theorem isHeld (h : Mounting ns [p] par t t₁) (hT : IsTreeLike ns) (ht : t.IsOrderly ns)
    (hh : t.IsHeld) (htop : p.id ∈ t.roots ∨ ∃ g, par = some g ∧ t.Shows g p.id) :
    t₁.IsHeld := by
  intro z hz
  by_cases hout : Unplaced [p] par z
  · exact h.held_of_unplaced hh hout hz
  · obtain ⟨q, k, hq, rfl⟩ := not_unplaced_singleton.mp hout
    have hpainted := h.painted hq hz
    cases hq with
    | self =>
      rcases htop with hroot | ⟨g, hpar, hshows⟩
      · exact Or.inl (h.roots_eq ▸ hroot)
      · -- The group above is not below the definition, so the mount left it alone.
        have hgp : ¬ ReflTransGen (Under ns) g p.id := fun hgp =>
          hT.irrefl p.id ((ht.below g p.id hshows).trans_left hgp)
        have hkeep := h.outside_singleton hgp
        exact Or.inr ⟨g, hpainted.2.trans hpar, hshows.of_get?_eq hkeep.1⟩
    | @panel b _ _ hb hc =>
      -- The group that shows it would have taken it along.
      have hb' := placedAmong_singleton.mpr hb
      have hviewer := h.painted hb fun hgone => hz (h.cascade_placed b _ q hb' hc hgone)
      exact Or.inr ⟨b.id, hpainted.2, hviewer.shows_iff.mpr (List.mem_map_of_mem hc)⟩

/-- If a mount moves nothing, the tree is linked as before. -/
theorem isLinked_of_stays (h : Mounting ns [p] par t t₁) (hT : IsTreeLike ns)
    (hnodup : p.ids.Nodup) (ht : t.IsOrderly ns) (hl : t.IsLinked)
    (htop : p.id ∈ t.roots ∨ ∃ g, par = some g ∧ t.Shows g p.id)
    (hstay : ∀ q g o, p.Placed par q g → t.parent? q.id = some o → g = some o) :
    t₁.IsLinked :=
  ⟨fun _ _ hgc => h.shown_of_stays hnodup hl hstay hgc, h.isHeld hT ht hl.held htop⟩

/-- If the tree is linked after a mount, the mount has moved nothing. -/
theorem stays_of_isLinked (h : Mounting ns [p] par t t₁) (hnodup : p.ids.Nodup)
    (hparents : ∀ id o, t.parent? id = some o → t.Shows o id) (hl : t₁.IsLinked) {o : ParamId}
    (hq : p.Placed par q g) (ho : t.parent? q.id = some o) :
    g = some o := by
  have hpainted : ∀ {q g}, p.Placed par q g → t₁.Painted q g := by
    intro q g hq
    induction hq with
    | self => exact h.tops p (List.mem_singleton_self p)
    | panel hb hc ih =>
      have hshows := ih.shows_iff.mpr (List.mem_map_of_mem hc)
      exact h.painted (hb.panel hc) (hl.shown _ _ hshows).1
  have hshows := hparents _ _ ho
  have hq' := hpainted hq
  -- The panel of `o` has lost `q`, unless it is as before or shows `q` anew.
  by_cases hout : Unplaced [p] par o
  · by_cases hgone : t₁.get? o = none
    · exact absurd (h.cascade o q.id hout hshows hgone) hq'.get?_ne_none
    · have hstill := hshows.of_get?_eq (h.of_ne_none hout hgone).1
      exact hq'.2.symm.trans (hl.shown o q.id hstill).2
  · obtain ⟨b, k, hb, rfl⟩ := not_unplaced_singleton.mp hout
    by_cases hmem : q.id ∈ b.panel.map Param.id
    · obtain ⟨q', hq'', hid⟩ := List.mem_map.mp hmem
      exact ((hb.panel hq'').unique hnodup hq hid).2.symm
    · exact absurd (h.stale b k q.id (placedAmong_singleton.mpr hb) hshows hmem) hq'.get?_ne_none

end Mounting

/-! ### Faithful trees -/

namespace IsFaithful

theorem below (hf : t.IsFaithful) {g : ParamId} (h : t.Shows g c) :
    TransGen (Under t.forest.nodes) c g := by
  rcases hf.stands g c h with hcg | ⟨u, hcu, hug, -⟩
  · exact .single hcg
  · exact .tail (.single hcu) hug

theorem isOrderly (hf : t.IsFaithful) (hns : t.forest.nodes ⊆ ns) : t.IsOrderly ns where
  isTidy := hf.isTidy
  kind_eq := hf.kind_eq
  below _ _ h := TransGen.mono (fun _ _ hcg => hcg.mono hns) _ _ (hf.below h)

theorem mem_forest (hf : t.IsFaithful) (h : id ∈ t.roots) : ∃ p ∈ t.forest, p.id = id := by
  obtain ⟨e, he⟩ := Option.ne_none_iff_exists'.mp (hf.topmost id h).1
  exact ⟨e.param, List.mem_filterMap.mpr ⟨id, h, by simp [he]⟩, (hf.bound id e he).2⟩

/-- A topmost id is a member of no group. -/
theorem not_under (hf : t.IsFaithful) (h : id ∈ t.roots) {g : ParamId} :
    ¬ Under t.forest.nodes id g := by
  obtain ⟨p, hp, rfl⟩ := hf.mem_forest h
  exact Forest.not_under_of_mem hf.nodup_ids hp

/-- A topmost id stands in no tree but its own. -/
theorem notMem_idsAt (hf : t.IsFaithful) (h : id ∈ t.roots) (hne : id ≠ i) :
    id ∉ t.forest.idsAt i := by
  intro hmem
  rcases ((Forest.mem_idsAt_iff hf.nodup_ids).mp hmem).2.cases_head with hid | ⟨x, hx, -⟩
  · exact hne hid
  · exact hf.not_under h hx

theorem mem_ids (hf : t.IsFaithful) (h : t.get? id ≠ none) : id ∈ t.forest.ids := by
  obtain ⟨e, he⟩ := Option.ne_none_iff_exists'.mp h
  obtain ⟨hmem, rfl⟩ := hf.bound id e he
  exact Forest.mem_ids_of_mem_nodes hmem

/-- A group recorded above an id shows it. -/
theorem shows_of_parent? (hf : t.IsFaithful) (hh : t.IsHeld) {g : ParamId}
    (h : t.parent? id = some g) : t.Shows g id := by
  have hlive : t.get? id ≠ none := fun hnone => by simp [hf.isTidy id hnone] at h
  rcases hh id hlive with hroot | ⟨g', hg', hshows⟩
  · simp [(hf.topmost id hroot).2] at h
  · rwa [Option.some.inj (h.symm.trans hg')]

/-- Between an id and the group that shows it there is nothing with an editor. -/
theorem eq_or_below_of_shows (hf : t.IsFaithful) {g : ParamId} (h : t.Shows g c)
    (ha : t.get? a ≠ none) (hca : TransGen (Under t.forest.nodes) c a) :
    a = g ∨ TransGen (Under t.forest.nodes) g a := by
  obtain ⟨x, hcx, hxa⟩ := TransGen.head'_iff.mp hca
  rcases hf.stands g c h with hcg | ⟨u, hcu, hug, hnone⟩
  · obtain rfl := Forest.under_unique hf.nodup_ids hcg hcx
    exact reflTransGen_iff_eq_or_transGen.mp hxa
  · obtain rfl := Forest.under_unique hf.nodup_ids hcu hcx
    rcases hxa.cases_head with rfl | ⟨y, huy, hya⟩
    · exact absurd hnone ha
    · obtain rfl := Forest.under_unique hf.nodup_ids hug huy
      exact reflTransGen_iff_eq_or_transGen.mp hya

/-- From an editor the way up ends: the trees at the groups on it grow. -/
theorem exists_climbs (hf : t.IsFaithful) (hh : t.IsHeld) (h : t.get? id ≠ none) :
    ∃ l, t.Climbs id l := by
  -- The tree at the group above is larger, and no tree is larger than the forest.
  induction hn : t.forest.ids.length - (t.forest.idsAt id).length using Nat.strongRecOn
    generalizing id with
  | ind n ih =>
    cases hparent : t.parent? id with
    | none => exact ⟨[], .top hparent⟩
    | some g =>
      have hshows := hf.shows_of_parent? hh hparent
      have hlt := Forest.length_idsAt_lt hf.nodup_ids (hf.below hshows)
      have hle := Forest.length_idsAt_le hf.nodup_ids g
      obtain ⟨l, hl'⟩ := ih _ (by omega) hshows.get?_ne_none rfl
      exact ⟨g :: l, .up hparent hl'⟩

/-- On the way up from an editor are all editors whose trees hold its id, and no others. -/
theorem mem_climbs_iff (hf : t.IsFaithful) (hh : t.IsHeld) (h : t.get? id ≠ none)
    (hclimbs : t.Climbs id l) :
    a ∈ l ↔ t.get? a ≠ none ∧ TransGen (Under t.forest.nodes) id a := by
  induction hclimbs with
  | @top id hparent =>
    have hroot : id ∈ t.roots := by
      rcases hh id h with hroot | ⟨g, hg, -⟩
      · exact hroot
      · exact absurd (hparent.symm.trans hg) (by simp)
    refine ⟨fun ha => absurd ha List.not_mem_nil, fun ⟨_, ha⟩ => ?_⟩
    obtain ⟨g, hg, -⟩ := TransGen.head'_iff.mp ha
    exact absurd hg (hf.not_under hroot)
  | @up id g rest hparent hrest ih =>
    have hshows := hf.shows_of_parent? hh hparent
    have hrest' : a ∈ rest ↔ t.get? a ≠ none ∧ TransGen (Under t.forest.nodes) g a :=
      ih hshows.get?_ne_none
    rw [List.mem_cons, hrest']
    constructor
    · rintro (rfl | ⟨ha, hga⟩)
      · exact ⟨hshows.get?_ne_none, hf.below hshows⟩
      · exact ⟨ha, (hf.below hshows).trans hga⟩
    · rintro ⟨ha, hida⟩
      exact (hf.eq_or_below_of_shows hshows ha hida).imp_right fun hga => ⟨ha, hga⟩

end IsFaithful

/-- Of the tree at the id of a mounted definition, only what is placed is left. -/
theorem Mounting.get?_eq_none_of_below (h : Mounting ns [p] par t t₁) (hf : t.IsFaithful)
    (hh : t.IsHeld) (hp : t.get? p.id ≠ none)
    (hz : TransGen (Under t.forest.nodes) z p.id) (hout : Unplaced [p] par z) :
    t₁.get? z = none := by
  by_contra hstill
  obtain ⟨l, hclimbs⟩ := hf.exists_climbs hh ((h.of_ne_none hout hstill).1 ▸ hstill)
  -- Whatever showed `z` is gone with the panel it stood in, up to the panel of a placed group.
  induction hclimbs with
  | @top z hparent =>
    have hlive : t.get? z ≠ none := (h.of_ne_none hout hstill).1 ▸ hstill
    rcases hh z hlive with hroot | ⟨g, hg, -⟩
    · obtain ⟨g, hg, -⟩ := TransGen.head'_iff.mp hz
      exact hf.not_under hroot hg
    · exact absurd (hparent.symm.trans hg) (by simp)
  | @up z g rest hparent _ ih =>
    have hshows := hf.shows_of_parent? hh hparent
    by_cases hg : Unplaced [p] par g
    · have hgstill : t₁.get? g ≠ none := fun hgone => hstill (h.cascade g z hg hshows hgone)
      have hne : g ≠ p.id := (unplaced_singleton.mp hg p par .self).symm
      have hgp := (hf.eq_or_below_of_shows hshows hp hz).resolve_left hne.symm
      exact ih hgp hg hgstill
    · obtain ⟨b, k, hb, rfl⟩ := not_unplaced_singleton.mp hg
      refine hstill (h.stale b k z (placedAmong_singleton.mpr hb) hshows fun hmem => ?_)
      obtain ⟨q, hq, rfl⟩ := List.mem_map.mp hmem
      exact unplaced_singleton.mp hout q _ (hb.panel hq) rfl

/-! ### Taking a change over -/

/-- Two trees have the same editors, panels and recorded groups; only what the editors are bound to
may differ. -/
structure SameShown (t t' : EditorTree) : Prop where
  /-- The topmost ids are the same. -/
  roots_eq : t'.roots = t.roots
  /-- The recorded groups are the same. -/
  parent?_eq : ∀ id, t'.parent? id = t.parent? id
  /-- The same ids have editors. -/
  get?_eq_none_iff : ∀ id, t'.get? id = none ↔ t.get? id = none
  /-- The panels show the same. -/
  shows_iff : ∀ g c, t'.Shows g c ↔ t.Shows g c

theorem SameShown.isHeld_iff (h : SameShown t t₁) : t₁.IsHeld ↔ t.IsHeld := by
  simp only [IsHeld, ne_eq, h.get?_eq_none_iff, h.roots_eq, h.parent?_eq, h.shows_iff]

theorem SameShown.isLinked_iff (h : SameShown t t₁) : t₁.IsLinked ↔ t.IsLinked := by
  have hshown : (∀ g c, t₁.Shows g c → t₁.get? c ≠ none ∧ t₁.parent? c = some g) ↔
      ∀ g c, t.Shows g c → t.get? c ≠ none ∧ t.parent? c = some g := by
    simp only [ne_eq, h.get?_eq_none_iff, h.parent?_eq, h.shows_iff]
  exact ⟨fun hl => ⟨hshown.mp hl.shown, h.isHeld_iff.mp hl.held⟩,
    fun hl => ⟨hshown.mpr hl.shown, h.isHeld_iff.mpr hl.held⟩⟩

theorem sameShown_foldl_patch (hl : l.Nodup) (p : Param) (t : EditorTree) :
    SameShown t (l.foldl (patch p) t) := by
  have hget := get?_foldl_patch hl p t
  refine ⟨roots_foldl_patch p l t, parent?_foldl_patch p l t, fun id => ?_, fun g c => ?_⟩
  · rw [hget]
    split
    · exact Option.map_eq_none_iff
    · rfl
  · rw [Shows, Shows, hget]
    split
    · simp
    · rfl

theorem kind_replaceDescendant (p q : Param) : (q.replaceDescendant p).kind = q.kind := by
  cases q with
  | leaf i name control => rfl
  | group i name params hidden =>
    rw [Param.replaceDescendant, Param.replaceDescendant?]
    cases Param.replaceAmong? params p with
    | none => rfl
    | some params' => rfl

/-- A definition stands in the tree, but the groups above it have not taken it over yet. -/
structure Pending (t t₁ : EditorTree) (p : Param) : Prop where
  /-- The topmost ids are as before. -/
  roots_eq : t₁.roots = t.roots
  /-- The editor of the id is bound to the definition. -/
  self : ∃ e, t₁.get? p.id = some e ∧ e.param = p
  /-- It stands where it stood before. -/
  parent?_eq : t₁.parent? p.id = t.parent? p.id
  /-- Editors away from the tree at the id are as before. -/
  outside : ∀ z, z ∉ t.forest.idsAt p.id → t.get? z ≠ none →
    t₁.get? z = t.get? z ∧ t₁.parent? z = t.parent? z
  /-- All others are bound to nodes of the definition. -/
  bound : ∀ z e, t₁.get? z = some e →
    e.param ∈ p.nodes ∧ e.param.id = z ∨ z ∉ t.forest.idsAt p.id ∧ t.get? z = some e
  /-- An editor is of the kind of the parameter it is bound to. -/
  kind_eq : ∀ z e, t₁.get? z = some e → e.kind = e.param.kind
  /-- No group is recorded above an id without an editor. -/
  isTidy : t₁.IsTidy
  /-- A panel shows what it showed before, or what the definition has at its group. -/
  stands : ∀ g c, t₁.Shows g c → g ∉ t.forest.idsAt p.id ∧ t.Shows g c ∨ Under p.nodes c g ∨
    ∃ u, Under p.nodes c u ∧ Under p.nodes u g ∧ t₁.get? u = none

/-- The groups `l` above a definition have taken it over. -/
structure TakenOver (t t₁ t₂ : EditorTree) (p : Param) (l : List ParamId) : Prop where
  /-- Before, the definition stood in the tree. -/
  pending : Pending t t₁ p
  /-- The ids of the definition are its own. -/
  fits : t.forest.Fits p
  /-- The id had an editor. -/
  live : t.get? p.id ≠ none
  /-- The groups are those with editors whose trees hold the id. -/
  mem_iff : ∀ a, a ∈ l ↔ t.get? a ≠ none ∧ TransGen (Under t.forest.nodes) p.id a
  /-- They have got the definition, all others are as before. -/
  get?_eq : ∀ z, t₂.get? z = if z ∈ l then (t₁.get? z).map (patchEditor p) else t₁.get? z
  /-- What the tree shows is the same. -/
  shown : SameShown t₁ t₂

namespace TakenOver

theorem mem_ids (h : TakenOver t t₁ t₂ p l) (hf : t.IsFaithful) : p.id ∈ t.forest.ids :=
  hf.mem_ids h.live

theorem self_notMem (h : TakenOver t t₁ t₂ p l) (hf : t.IsFaithful) : p.id ∉ l := by
  intro hp
  exact Forest.not_transGen_under_self hf.nodup_ids ((h.mem_iff p.id).mp hp).2

theorem notMem_idsAt (h : TakenOver t t₁ t₂ p l) (hf : t.IsFaithful) (hz : z ∈ l) :
    z ∉ t.forest.idsAt p.id :=
  Forest.notMem_idsAt_of_above hf.nodup_ids ((h.mem_iff z).mp hz).2

/-- Away from the tree at the id, editors are bound to what they were bound to, with the copy of the
definition exchanged: a group that holds one is among those above. -/
theorem param_eq (h : TakenOver t t₁ t₂ p l) (hf : t.IsFaithful) {e : Editor}
    (hz : z ∉ t.forest.idsAt p.id) (he : t.get? z = some e) :
    (t₂.get? z).map (·.param) = some (e.param.exchange p) := by
  obtain ⟨hnode, rfl⟩ := hf.bound z e he
  have hne : e.param.id ≠ p.id := by
    intro hid
    rw [hid] at hz
    exact hz (Forest.self_mem_idsAt hf.nodup_ids (h.mem_ids hf))
  have hsame := (h.pending.outside _ hz (by simp [he])).1.trans he
  rw [h.get?_eq, hsame]
  by_cases hzl : e.param.id ∈ l
  · rw [if_pos hzl, Option.map_some, Option.map_some, param_patchEditor,
      Param.replaceDescendant_eq (Forest.nodup_ids_of_mem_nodes hf.nodup_ids hnode) hne]
  · have hnotMem : p.id ∉ e.param.ids := by
      intro hpe
      have hbelow := (List.mem_cons.mp hpe).resolve_left hne.symm
      refine hzl ((h.mem_iff _).mpr ⟨by simp [he], ?_⟩)
      exact (Forest.transGen_under_iff hf.nodup_ids).mpr ⟨_, hnode, rfl, hbelow⟩
    rw [if_neg hzl, Option.map_some, Param.exchange_of_notMem hnotMem]

theorem forest_eq (h : TakenOver t t₁ t₂ p l) (hf : t.IsFaithful) :
    t₂.forest = t.forest.define p := by
  rw [Forest.define, if_pos (h.mem_ids hf), Forest.exchange, forest, forest, List.map_filterMap,
    h.shown.roots_eq, h.pending.roots_eq]
  refine List.filterMap_congr fun r hr => ?_
  obtain ⟨e, he⟩ := Option.ne_none_iff_exists'.mp (hf.topmost r hr).1
  by_cases hrp : r = p.id
  · subst hrp
    obtain ⟨e₁, he₁, hparam₁⟩ := h.pending.self
    rw [h.get?_eq, if_neg (h.self_notMem hf), he₁, he]
    simp [hparam₁, Param.exchange_of_id_eq (hf.bound _ e he).2]
  · rw [h.param_eq hf (hf.notMem_idsAt hr hrp) he, he]
    rfl

theorem topmost (h : TakenOver t t₁ t₂ p l) (hf : t.IsFaithful) {r : ParamId} (hr : r ∈ t₂.roots) :
    t₂.get? r ≠ none ∧ t₂.parent? r = none := by
  rw [h.shown.roots_eq, h.pending.roots_eq] at hr
  rw [h.shown.parent?_eq, ne_eq, h.shown.get?_eq_none_iff]
  obtain ⟨hlive, hparent⟩ := hf.topmost r hr
  by_cases hrp : r = p.id
  · subst hrp
    obtain ⟨e₁, he₁, -⟩ := h.pending.self
    exact ⟨by simp [he₁], h.pending.parent?_eq.trans hparent⟩
  · have hsame := h.pending.outside r (hf.notMem_idsAt hr hrp) hlive
    exact ⟨hsame.1 ▸ hlive, hsame.2.trans hparent⟩

theorem bound (h : TakenOver t t₁ t₂ p l) (hf : t.IsFaithful) {e : Editor}
    (he : t₂.get? z = some e) : e.param ∈ (t.forest.define p).nodes ∧ e.param.id = z := by
  have hlive : t₁.get? z ≠ none := by
    rw [ne_eq, ← h.shown.get?_eq_none_iff, he]
    exact Option.some_ne_none e
  obtain ⟨e', he'⟩ := Option.ne_none_iff_exists'.mp hlive
  rcases h.pending.bound z e' he' with ⟨hnode, hid⟩ | ⟨hout, hsame⟩
  · have hzl : z ∉ l := by
      intro hzl
      have hzf := hf.mem_ids ((h.mem_iff z).mp hzl).1
      have hzp : z ∈ p.ids := hid ▸ Param.mem_ids_of_mem_nodes hnode
      have hzat := h.fits.mem_idsAt hf.nodup_ids (h.mem_ids hf) hzp hzf
      exact h.notMem_idsAt hf hzl hzat
    rw [h.get?_eq, if_neg hzl, he'] at he
    obtain rfl := Option.some.inj he
    exact ⟨(Forest.mem_nodes_define hf.nodup_ids).mpr (Or.inl hnode), hid⟩
  · have hparam := h.param_eq hf hout hsame
    rw [he, Option.map_some, Option.some_inj] at hparam
    obtain ⟨hnode, rfl⟩ := hf.bound z e' hsame
    rw [hparam, Param.exchange_id]
    exact ⟨(Forest.mem_nodes_define hf.nodup_ids).mpr (Or.inr ⟨_, hnode, hout, rfl⟩), rfl⟩

theorem kind_eq (h : TakenOver t t₁ t₂ p l) {e : Editor} (he : t₂.get? z = some e) :
    e.kind = e.param.kind := by
  rw [h.get?_eq] at he
  split at he
  · obtain ⟨e', he', rfl⟩ := Option.map_eq_some_iff.mp he
    rw [kind_patchEditor, param_patchEditor, kind_replaceDescendant]
    exact h.pending.kind_eq z e' he'
  · exact h.pending.kind_eq z e he

/-- A member without an editor between a group and what its panel still shows is not in the tree at
the id, and has no editor afterwards either. -/
theorem get?_eq_none_of_between (h : TakenOver t t₁ t₂ p l) (hf : t.IsFaithful) {g u : ParamId}
    (hg : g ∉ t.forest.idsAt p.id) (hug : Under t.forest.nodes u g) (hnone : t.get? u = none) :
    u ∉ t.forest.idsAt p.id ∧ t₁.get? u = none := by
  have hu : u ∉ t.forest.idsAt p.id := by
    intro hu
    rcases ((Forest.mem_idsAt_iff hf.nodup_ids).mp hu).2.cases_head with rfl | ⟨x, hx, hxp⟩
    · exact h.live hnone
    · obtain rfl := Forest.under_unique hf.nodup_ids hug hx
      exact hg ((Forest.mem_idsAt_iff hf.nodup_ids).mpr ⟨h.mem_ids hf, hxp⟩)
  refine ⟨hu, ?_⟩
  by_contra hlive
  obtain ⟨e, he⟩ := Option.ne_none_iff_exists'.mp hlive
  rcases h.pending.bound u e he with ⟨hnode, hid⟩ | ⟨-, hsame⟩
  · have hup : u ∈ p.ids := hid ▸ Param.mem_ids_of_mem_nodes hnode
    exact hu (h.fits.mem_idsAt hf.nodup_ids (h.mem_ids hf) hup (Forest.mem_ids_of_under hug).1)
  · simp [hsame] at hnone

theorem stands (h : TakenOver t t₁ t₂ p l) (hf : t.IsFaithful) {g : ParamId} (hgc : t₂.Shows g c) :
    Under (t.forest.define p).nodes c g ∨
    ∃ u, Under (t.forest.define p).nodes c u ∧ Under (t.forest.define p).nodes u g ∧
      t₂.get? u = none := by
  simp only [Forest.under_define hf.nodup_ids, h.shown.get?_eq_none_iff]
  rcases h.pending.stands g c ((h.shown.shows_iff g c).mp hgc) with
    ⟨hg, hold⟩ | hcg | ⟨u, hcu, hug, hnone⟩
  · rcases hf.stands g c hold with hcg | ⟨u, hcu, hug, hnone⟩
    · exact Or.inl (Or.inr ⟨hg, hcg⟩)
    · obtain ⟨hu, hnone'⟩ := h.get?_eq_none_of_between hf hg hug hnone
      exact Or.inr ⟨u, Or.inr ⟨hu, hcu⟩, Or.inr ⟨hg, hug⟩, hnone'⟩
  · exact Or.inl (Or.inl hcg)
  · exact Or.inr ⟨u, Or.inl hcu, Or.inl hug, hnone⟩

theorem isFaithful (h : TakenOver t t₁ t₂ p l) (hf : t.IsFaithful) : t₂.IsFaithful := by
  have hforest := h.forest_eq hf
  refine ⟨?nodup, fun r hr => h.topmost hf hr, fun z e he => ?bound, fun z e he => h.kind_eq he,
    fun z hz => ?tidy, fun g c hgc => ?stands⟩
  case nodup =>
    rw [hforest]
    exact Forest.nodup_ids_define hf.nodup_ids h.fits
  case bound =>
    rw [hforest]
    exact h.bound hf he
  case tidy =>
    rw [h.shown.parent?_eq]
    exact h.pending.isTidy z ((h.shown.get?_eq_none_iff z).mp hz)
  case stands =>
    rw [hforest]
    exact h.stands hf hgc

end TakenOver

/-- The groups above take a definition over, and the tree is faithful to the forest in which the
definition has taken its place. -/
theorem IsFaithful.sync (hf : t.IsFaithful) (hh : t.IsHeld) (hfits : t.forest.Fits p)
    (hp : t.get? p.id ≠ none) (h : Pending t t₁ p) :
    ∃ t₂, t₁.syncAncestors p.id = some t₂ ∧ SameShown t₁ t₂ ∧ t₂.IsFaithful ∧
      t₂.forest = t.forest.define p := by
  obtain ⟨l, hclimbs⟩ := hf.exists_climbs hh hp
  have hway := fun a => hf.mem_climbs_iff (a := a) hh hp hclimbs
  -- The way up leaves the tree at the id at once, so it is still the way up.
  have hclimbs₁ : t₁.Climbs p.id l := by
    refine hclimbs.congr fun z hz => ?_
    rcases List.mem_cons.mp hz with rfl | hz
    · exact h.parent?_eq
    · have hzp := Forest.notMem_idsAt_of_above hf.nodup_ids ((hway z).mp hz).2
      exact (h.outside z hzp ((hway z).mp hz).1).2
  obtain ⟨e₁, he₁, hparam₁⟩ := h.self
  have hnodup := (List.nodup_cons.mp hclimbs.nodup).2
  have hshown := sameShown_foldl_patch hnodup p t₁
  have htaken : TakenOver t t₁ (l.foldl (patch p) t₁) p l :=
    ⟨h, hfits, hp, hway, get?_foldl_patch hnodup p t₁, hshown⟩
  have hsync := syncAncestors_eq he₁ hclimbs₁
  rw [hparam₁] at hsync
  exact ⟨l.foldl (patch p) t₁, hsync, hshown, htaken.isFaithful hf, htaken.forest_eq hf⟩

end EditorTree

end LiveTuner
