import LiveTuner.Proofs.EditorTree.Settled

/-!
# What a tree of editors shows

From the definitions alone it can be read off which parameters are shown and where: the topmost
ones, and from each parameter that is shown on, what its panel asks for. Two things keep a parameter
out of sight. Its attribute may be hidden in the group it is a member of, and then nothing below it
is shown either. Or it is a group that stands for an optional value, and lends its place to its
parameters: these are shown in the panel of the group above it.

A tree that has been loaded shows just that. What there was before does not matter.

## Main definitions

* `Forest.Reaches` — a definition is shown in the panel of a group
* `Forest.Hides` — an id is that of a hidden parameter, or stands below one
* `Forest.Splices` — a parameter lends its place to its parameters
* `EditorTree.Presents` — the editors are those that a forest asks for, as new

## Main results

* `Forest.Reaches.not_hides`, `Forest.reaches_or_splices` — what is not hidden is shown, or lends
  its place
* `EditorTree.presents_load` — a tree that has been loaded presents its definitions
-/

namespace LiveTuner

open Relation

namespace Param

variable {p c u : Param} {m : Mount}

/-- The parameters of a group that are not shown, in order; none for other parameters. -/
def concealed : Param → List Param
  | leaf .. => []
  | group _ _ params hidden => (params.filter fun (key, _) => hidden.contains key).map Prod.snd

/-- The parameters of a group are shown or not shown, each place of it one of the two. -/
theorem concealed_append_visible_perm (p : Param) :
    (p.concealed ++ p.visible).Perm p.children := by
  cases p with
  | leaf i name control => rfl
  | group i name params hidden =>
    rw [concealed, visible, ← List.map_append]
    exact (List.filter_append_perm _ params).map Prod.snd

theorem mem_children_of_mem_visible (h : c ∈ p.visible) : c ∈ p.children :=
  p.visible_sublist.subset h

theorem mem_children_of_mem_concealed (h : c ∈ p.concealed) : c ∈ p.children :=
  p.concealed_append_visible_perm.subset (List.mem_append_left _ h)

theorem mem_visible_or_mem_concealed (h : c ∈ p.children) : c ∈ p.visible ∨ c ∈ p.concealed :=
  (List.mem_append.mp (p.concealed_append_visible_perm.symm.subset h)).symm

/-- Without repeated ids, nothing is both shown and not shown. -/
theorem id_ne_of_mem_concealed (h : p.ids.Nodup) (hc : c ∈ p.visible) (hu : u ∈ p.concealed) :
    c.id ≠ u.id := by
  intro hid
  have hnodup : ((p.concealed ++ p.visible).flatMap ids).Nodup := by
    refine (p.concealed_append_visible_perm.flatMap_right ids).nodup_iff.mpr ?_
    have hmembers := nodup_map_id_flatMap_children h
    rwa [List.map_flatMap, funext map_id_nodes] at hmembers
  rw [List.flatMap_append] at hnodup
  exact (List.nodup_append.mp hnodup).2.2 u.id (List.mem_flatMap.mpr ⟨u, hu, id_mem_ids u⟩) c.id
    (List.mem_flatMap.mpr ⟨c, hc, id_mem_ids c⟩) hid.symm

/-! ### Optional values -/

/-- The flag and the value of an optional value are all that its group shows, under the two
names. -/
theorem optionalPair?_eq_some {visible : List Param} {flag value : Param}
    (h : optionalPair? visible = some (flag, value)) :
    visible = [flag, value] ∧ flag.name = enabledName ∧ value.name = enabledValueName := by
  match visible with
  | [] | [_] | _ :: _ :: _ :: _ => simp [optionalPair?] at h
  | [x, y] =>
    rw [optionalPair?] at h
    split at h
    · next hnames =>
      obtain ⟨rfl, rfl⟩ := Prod.mk.inj (Option.some.inj h)
      exact ⟨rfl, hnames⟩
    · cases h

/-- The three shapes of a panel: the parameters that its group shows; the flag of an optional value
and the parameters of the group that is the value; or the flag, and the value without a label. -/
theorem panelMounts_cases (p : Param) :
    (optionalPair? p.visible = none ∧ panelMounts p = p.visible.map (⟨·, true⟩)) ∨
    (∃ flag value, optionalPair? p.visible = some (flag, value) ∧ value.kind = .group ∧
      panelMounts p = ⟨flag, true⟩ :: value.visible.map (⟨·, true⟩)) ∨
    ∃ flag value, optionalPair? p.visible = some (flag, value) ∧ value.kind ≠ .group ∧
      panelMounts p = [⟨flag, true⟩, ⟨value, false⟩] := by
  cases p with
  | leaf i name control => exact Or.inl ⟨rfl, rfl⟩
  | group i name params hidden =>
    rw [panelMounts, mountsOfVisible]
    cases hpair : optionalPair? (group i name params hidden).visible with
    | none => exact Or.inl ⟨rfl, rfl⟩
    | some pair =>
      obtain ⟨flag, value⟩ := pair
      cases value with
      | group j name' params' hidden' => exact Or.inr (Or.inl ⟨flag, _, rfl, rfl, rfl⟩)
      | leaf j name' control =>
        refine Or.inr (Or.inr ⟨flag, _, rfl, ?_, rfl⟩)
        cases control <;> exact Kind.noConfusion

/-- A panel shows without a label only the value of an optional value, and only where that is no
group. -/
theorem labelled_eq_false_iff (h : m ∈ panelMounts p) :
    m.labelled = false ↔
      ∃ flag, optionalPair? p.visible = some (flag, m.param) ∧ m.param.kind ≠ .group := by
  rcases p.panelMounts_cases with ⟨hnone, hmounts⟩ | ⟨flag, value, hpair, hkind, hmounts⟩ |
    ⟨flag, value, hpair, hkind, hmounts⟩
  · obtain ⟨c, -, rfl⟩ := List.mem_map.mp (hmounts ▸ h)
    simp [hnone]
  · have hlabelled : m.labelled = true := by
      rcases List.mem_cons.mp (hmounts ▸ h) with rfl | h
      · rfl
      · obtain ⟨c, -, rfl⟩ := List.mem_map.mp h
        rfl
    rw [hlabelled]
    refine ⟨fun hfalse => Bool.noConfusion hfalse, ?_⟩
    rintro ⟨flag', hpair', hkind'⟩
    obtain ⟨-, rfl⟩ := Prod.mk.inj (Option.some.inj (hpair.symm.trans hpair'))
    exact absurd hkind hkind'
  · rw [hmounts, List.mem_cons, List.mem_singleton] at h
    rcases h with rfl | rfl
    · -- The flag is not the value: the two have different names.
      refine ⟨fun hfalse => Bool.noConfusion hfalse, ?_⟩
      rintro ⟨flag', hpair', -⟩
      obtain ⟨-, -, hname⟩ := optionalPair?_eq_some hpair'
      rw [(optionalPair?_eq_some hpair).2.1] at hname
      exact absurd hname (by decide)
    · exact ⟨fun _ => ⟨flag, hpair, hkind⟩, fun _ => rfl⟩

/-- A group that is the value of an optional value does not stand in the panel itself. -/
theorem notMem_panel_of_optionalPair? {flag value : Param}
    (hpair : optionalPair? p.visible = some (flag, value)) (hkind : value.kind = .group) :
    value ∉ p.panel := by
  intro hmem
  rcases p.panelMounts_cases with ⟨hnone, -⟩ | ⟨flag', value', hpair', -, hmounts⟩ |
    ⟨flag', value', hpair', hkind', -⟩
  · exact absurd (hnone.symm.trans hpair) (by simp)
  · obtain ⟨rfl, rfl⟩ := Prod.mk.inj (Option.some.inj (hpair.symm.trans hpair'))
    obtain ⟨hvisible, hflag, hvalue⟩ := optionalPair?_eq_some hpair
    rw [panel, hmounts, List.map_cons, List.mem_cons, List.map_map] at hmem
    rcases hmem with rfl | hmem
    · exact absurd (hflag.symm.trans hvalue) (by decide)
    · obtain ⟨c, hc, rfl⟩ := List.mem_map.mp hmem
      exact Nat.lt_irrefl _ (height_lt_of_mem_children (mem_children_of_mem_visible hc))
  · obtain ⟨-, rfl⟩ := Prod.mk.inj (Option.some.inj (hpair.symm.trans hpair'))
    exact absurd hkind hkind'

end Param

namespace Forest

variable {f : Forest} {b c q u : Param} {m : Mount} {g : Option ParamId} {i : ParamId}

/-- From the topmost definitions on, panels come to ask for `m`, and a panel of the group `g` does;
no group if the definition is a topmost one. -/
inductive Reaches (f : Forest) : Mount → Option ParamId → Prop where
  /-- A topmost definition is shown with its label. -/
  | top {p : Param} (hp : p ∈ f) : Reaches f ⟨p, true⟩ none
  /-- What the panel of a group that is shown asks for. -/
  | panel {b m : Mount} {g : Option ParamId} (hb : Reaches f b g) (hm : m ∈ panelMounts b.param) :
    Reaches f m (some b.param.id)

/-- An id is that of a parameter that its group does not show, or stands below such a parameter. -/
def Hides (f : Forest) (i : ParamId) : Prop := ∃ b ∈ f.nodes, ∃ u ∈ b.concealed, i ∈ u.ids

/-- A parameter is a group that stands for the value of an optional value that is shown. -/
def Splices (f : Forest) (q : Param) : Prop :=
  ∃ b g flag, f.Reaches b g ∧ optionalPair? b.param.visible = some (flag, q) ∧ q.kind = .group

theorem Reaches.mem_nodes (h : f.Reaches m g) : m.param ∈ f.nodes := by
  induction h with
  | top hp => exact mem_nodes_of_mem hp
  | panel _ hm ih =>
    exact mem_nodes_trans ih (Param.mem_nodes_of_mem_panel (List.mem_map_of_mem hm))

theorem Splices.mem_nodes (h : f.Splices q) : q ∈ f.nodes := by
  obtain ⟨b, g, flag, hb, hpair, -⟩ := h
  refine mem_nodes_trans hb.mem_nodes (Param.mem_nodes_of_mem_children ?_)
  refine Param.mem_children_of_mem_visible ?_
  simp [(Param.optionalPair?_eq_some hpair).1]

/-! ### What is not shown -/

theorem under_of_mem_children (hb : b ∈ f.nodes) (hc : c ∈ b.children) :
    Under f.nodes c.id b.id := ⟨b, hb, rfl, c, hc, rfl⟩

/-- A member that its group shows is hidden only along with the group. -/
theorem not_hides_of_mem_visible (hf : f.ids.Nodup) (hb : b ∈ f.nodes) (hc : c ∈ b.visible)
    (h : ¬ f.Hides b.id) : ¬ f.Hides c.id := by
  rintro ⟨b', hb', u, hu, hcu⟩
  have hcb := under_of_mem_children hb (Param.mem_children_of_mem_visible hc)
  have hub := under_of_mem_children hb' (Param.mem_children_of_mem_concealed hu)
  have hunode : u ∈ f.nodes := mem_nodes_trans hb'
    (Param.mem_nodes_of_mem_children (Param.mem_children_of_mem_concealed hu))
  rcases List.mem_cons.mp hcu with hid | hbelow
  · rw [hid] at hcb
    obtain rfl := eq_of_id_eq hf hb hb' (under_unique hf hcb hub)
    exact Param.id_ne_of_mem_concealed (nodup_ids_of_mem_nodes hf hb) hc hu hid
  · -- The way from the member up to the hidden parameter leads through the group.
    have hway : TransGen (Under f.nodes) c.id u.id :=
      transGen_under_of_mem (fun _ hx => mem_nodes_trans hunode hx) hbelow
    obtain ⟨x, hcx, hxu⟩ := TransGen.head'_iff.mp hway
    obtain rfl := under_unique hf hcx hcb
    have hmem := (mem_idsAt_iff hf).mpr ⟨mem_ids_of_mem_nodes hunode, hxu⟩
    exact h ⟨b', hb', u, hu, idsAt_id hf hunode ▸ hmem⟩

/-- A topmost definition is not hidden. -/
theorem not_hides_of_mem (hf : f.ids.Nodup) (hq : q ∈ f) : ¬ f.Hides q.id := by
  rintro ⟨b, hb, u, hu, hqu⟩
  have hub := under_of_mem_children hb (Param.mem_children_of_mem_concealed hu)
  have hunode : u ∈ f.nodes := mem_nodes_trans hb
    (Param.mem_nodes_of_mem_children (Param.mem_children_of_mem_concealed hu))
  rcases List.mem_cons.mp hqu with hid | hbelow
  · exact not_under_of_mem hf hq (hid ▸ hub)
  · have hway : TransGen (Under f.nodes) q.id u.id :=
      transGen_under_of_mem (fun _ hx => mem_nodes_trans hunode hx) hbelow
    obtain ⟨x, hqx, -⟩ := TransGen.head'_iff.mp hway
    exact not_under_of_mem hf hq hqx

/-- What is shown is not hidden. -/
theorem Reaches.not_hides (h : f.Reaches m g) (hf : f.ids.Nodup) : ¬ f.Hides m.param.id := by
  induction h with
  | top hp => exact not_hides_of_mem hf hp
  | @panel b m g hb hm ih =>
    have hbnode := hb.mem_nodes
    have hmem : m.param ∈ b.param.panel := List.mem_map_of_mem hm
    rcases b.param.panel_cases with hpanel | ⟨flag, value, hvisible, hpanel⟩
    · exact not_hides_of_mem_visible hf hbnode (hpanel ▸ hmem) ih
    · rcases List.mem_cons.mp (hpanel ▸ hmem) with hflag | hmem
      · refine not_hides_of_mem_visible hf hbnode ?_ ih
        simp [hvisible, hflag]
      · have hvalue : value ∈ b.param.visible := by simp [hvisible]
        have hnode := mem_nodes_trans hbnode
          (Param.mem_nodes_of_mem_children (Param.mem_children_of_mem_visible hvalue))
        exact not_hides_of_mem_visible hf hnode hmem
          (not_hides_of_mem_visible hf hbnode hvalue ih)

/-- What a group shows that is shown, or that lends its place, is shown or lends its place. -/
theorem reaches_or_splices_of_mem_visible
    (hq : (∃ m g, f.Reaches m g ∧ m.param = q) ∨ f.Splices q) (hc : c ∈ q.visible) :
    (∃ m g, f.Reaches m g ∧ m.param = c) ∨ f.Splices c := by
  rcases hq with ⟨m, g, hm, rfl⟩ | ⟨b, g, flag, hb, hpair, hkind⟩
  · have hplaced : ∀ labelled, ⟨c, labelled⟩ ∈ panelMounts m.param →
        (∃ m g, f.Reaches m g ∧ m.param = c) ∨ f.Splices c := fun _ hmem =>
      Or.inl ⟨_, _, hm.panel hmem, rfl⟩
    rcases m.param.panelMounts_cases with ⟨-, hmounts⟩ | ⟨flag, value, hpair, hkind, hmounts⟩ |
      ⟨flag, value, hpair, -, hmounts⟩
    · refine hplaced true ?_
      rw [hmounts]
      exact List.mem_map_of_mem hc
    · rw [(Param.optionalPair?_eq_some hpair).1, List.mem_cons, List.mem_singleton] at hc
      rcases hc with rfl | rfl
      · exact hplaced true (by simp [hmounts])
      · exact Or.inr ⟨m, g, flag, hm, hpair, hkind⟩
    · rw [(Param.optionalPair?_eq_some hpair).1, List.mem_cons, List.mem_singleton] at hc
      rcases hc with rfl | rfl
      · exact hplaced true (by simp [hmounts])
      · exact hplaced false (by simp [hmounts])
  · -- The panel that `q` lends its place in shows what `q` would show.
    rcases b.param.panelMounts_cases with ⟨hnone, -⟩ | ⟨flag', value, hpair', -, hmounts⟩ |
      ⟨flag', value, hpair', hkind', -⟩
    · exact absurd (hnone.symm.trans hpair) (by simp)
    · obtain ⟨-, rfl⟩ := Prod.mk.inj (Option.some.inj (hpair.symm.trans hpair'))
      refine Or.inl ⟨⟨c, true⟩, _, hb.panel ?_, rfl⟩
      rw [hmounts]
      exact List.mem_cons_of_mem _ (List.mem_map_of_mem hc)
    · obtain ⟨-, rfl⟩ := Prod.mk.inj (Option.some.inj (hpair.symm.trans hpair'))
      exact absurd hkind hkind'

/-- What is not hidden is shown or lends its place. -/
theorem reaches_or_splices (hq : q ∈ f.nodes) (h : ¬ f.Hides q.id) :
    (∃ m g, f.Reaches m g ∧ m.param = q) ∨ f.Splices q := by
  -- From the top of each tree down, along the members.
  have hdown : ∀ p : Param, p.nodes ⊆ f.nodes →
      ((∃ m g, f.Reaches m g ∧ m.param = p) ∨ f.Splices p) → ∀ q ∈ p.nodes, ¬ f.Hides q.id →
      (∃ m g, f.Reaches m g ∧ m.param = q) ∨ f.Splices q := by
    intro p
    induction p using Param.induction with
    | leaf i name control =>
      intro _ hp q hq _
      obtain rfl := List.mem_singleton.mp hq
      exact hp
    | group i name params hidden ih =>
      intro hsub hp q hq hshown
      rcases Param.mem_nodes_iff.mp hq with rfl | ⟨c, hc, hqc⟩
      · exact hp
      · have hcsub : c.nodes ⊆ f.nodes := fun x hx =>
          hsub (Param.mem_nodes_trans (Param.mem_nodes_of_mem_children hc) hx)
        refine ih c hc hcsub (reaches_or_splices_of_mem_visible hp ?_) q hqc hshown
        refine (Param.mem_visible_or_mem_concealed hc).resolve_right fun hout => hshown ?_
        exact ⟨_, hsub (Param.self_mem_nodes _), c, hout, Param.mem_ids_of_mem_nodes hqc⟩
  obtain ⟨p, hp, hqp⟩ := List.mem_flatMap.mp hq
  exact hdown p (fun x hx => mem_nodes_trans (mem_nodes_of_mem hp) hx)
    (Or.inl ⟨⟨p, true⟩, none, .top hp, rfl⟩) q hqp h

end Forest

namespace EditorTree

variable {t : EditorTree} {f : Forest} {m : Mount} {g : Option ParamId} {id : ParamId}

/-- The tree has a new editor for everything that the forest shows, in the panel where it is shown,
and no other editors. -/
structure Presents (t : EditorTree) (f : Forest) : Prop where
  /-- The topmost ids are those of the topmost definitions, in order. -/
  roots_eq : t.roots = f.map Param.id
  /-- The ids with editors are those that panels come to ask for. -/
  live_iff : ∀ id, t.get? id ≠ none ↔ ∃ m g, f.Reaches m g ∧ m.param.id = id
  /-- What is shown is a definition of the forest. Its editor is bound to it, closed, labelled as
  asked for, and shows what the definition paints. -/
  editor : ∀ m g, f.Reaches m g → m.param ∈ f.nodes ∧
    ∃ serial, t.get? m.param.id = some (Editor.create m.param m.labelled serial).rebuild
  /-- An editor stands below the group whose panel asks for it. -/
  parent?_eq : ∀ m g, f.Reaches m g → t.parent? m.param.id = g
  /-- Below no group stands an id without an editor. -/
  isTidy : t.IsTidy
  /-- Labelled are all but the values of optional values that are no groups. -/
  labelled_iff : ∀ m g, f.Reaches m g → (m.labelled = false ↔ ∃ b h flag, f.Reaches b h ∧
    g = some b.param.id ∧ optionalPair? b.param.visible = some (flag, m.param) ∧
    m.param.kind ≠ .group)
  /-- Without editors are the definitions that are hidden, with all below them, and the groups that
  lend their place to their parameters. -/
  hidden_iff : ∀ q ∈ f.nodes, t.get? q.id = none ↔ f.Hides q.id ∨ f.Splices q

namespace IsSettled

/-- What the forest of a settled tree shows has an editor in its place. -/
theorem exists_editor (h : t.IsSettled) (hm : t.forest.Reaches m g) :
    ∃ e, t.get? m.param.id = some e ∧ e.param = m.param ∧ e.labelled = m.labelled ∧
      t.parent? m.param.id = g := by
  have hf := h.isFaithful
  have hbound : ∀ {m g e}, t.forest.Reaches m g → t.get? m.param.id = some e →
      e.param = m.param := by
    intro m g e hm he
    obtain ⟨hnode, hid⟩ := hf.bound _ e he
    exact Forest.eq_of_id_eq hf.nodup_ids hnode hm.mem_nodes hid
  induction hm with
  | @top p hp =>
    have hroot : p.id ∈ t.roots := by
      rw [hf.roots_eq]
      exact List.mem_map_of_mem hp
    obtain ⟨hlive, hparent⟩ := hf.topmost p.id hroot
    obtain ⟨e, he⟩ := Option.ne_none_iff_exists'.mp hlive
    exact ⟨e, he, hbound (.top hp) he, h.labelled_top p.id hroot e he, hparent⟩
  | @panel b m g hb hm ih =>
    obtain ⟨x, hx, hxparam, -, -⟩ := ih
    have hshows : t.Shows b.param.id m.param.id := by
      rw [h.isFresh b.param.id x hx, hxparam]
      exact List.mem_map_of_mem (List.mem_map_of_mem hm)
    obtain ⟨hlive, hparent⟩ := h.isSound.shown _ _ hshows
    obtain ⟨e, he⟩ := Option.ne_none_iff_exists'.mp hlive
    exact ⟨e, he, hbound (hb.panel hm) he, h.labelled _ x hx m (hxparam ▸ hm) e he, hparent⟩

/-- An editor of a settled tree is one that the forest shows. -/
theorem exists_reaches (h : t.IsSettled) (hlive : t.get? id ≠ none) :
    ∃ m g, t.forest.Reaches m g ∧ m.param.id = id := by
  have hf := h.isFaithful
  obtain ⟨l, hclimbs⟩ := hf.exists_climbs h.isSound.held hlive
  -- By the way up: a topmost id is that of a tree, any other is asked for by the panel above it.
  induction hclimbs with
  | @top id hparent =>
    rcases h.isSound.held id hlive with hroot | ⟨g, hg, -⟩
    · obtain ⟨p, hp, rfl⟩ := hf.mem_forest hroot
      exact ⟨⟨p, true⟩, none, .top hp, rfl⟩
    · exact absurd (hparent.symm.trans hg) (by simp)
  | @up id g rest hparent _ ih =>
    have hshows := hf.shows_of_parent? h.isSound.held hparent
    obtain ⟨b, k, hb, rfl⟩ := ih hshows.get?_ne_none
    obtain ⟨x, hx, hxparam, -, -⟩ := h.exists_editor hb
    obtain ⟨q, hq, rfl⟩ := List.mem_map.mp ((h.isFresh _ x hx id).mp hshows)
    obtain ⟨m, hm, rfl⟩ := List.mem_map.mp (hxparam ▸ hq)
    exact ⟨m, _, hb.panel hm, rfl⟩

/-- A group that lends its place has no editor in a settled tree. -/
theorem get?_eq_none_of_splices {q : Param} (h : t.IsSettled) (hq : t.forest.Splices q) :
    t.get? q.id = none := by
  have hf := h.isFaithful
  obtain ⟨b, k, flag, hb, hpair, hkind⟩ := hq
  obtain ⟨x, hx, hxparam, -, -⟩ := h.exists_editor hb
  have hvisible := (Param.optionalPair?_eq_some hpair).1
  have hmember : q ∈ b.param.children :=
    Param.mem_children_of_mem_visible (by simp [hvisible])
  have hqb := Forest.under_of_mem_children hb.mem_nodes hmember
  by_contra hlive
  -- Some panel shows it. That is the panel of its group, as its group has an editor.
  have hshows : t.Shows b.param.id q.id := by
    rcases h.isSound.held q.id hlive with hroot | ⟨g, -, hshows⟩
    · exact absurd hqb (hf.not_under hroot)
    · rcases hf.stands g q.id hshows with hqg | ⟨u, hqu, -, hnone⟩
      · rwa [Forest.under_unique hf.nodup_ids hqb hqg]
      · obtain rfl := Forest.under_unique hf.nodup_ids hqb hqu
        simp [hx] at hnone
  have hids := (h.isFresh _ x hx q.id).mp hshows
  have hbnodup := Forest.nodup_ids_of_mem_nodes hf.nodup_ids hb.mem_nodes
  rw [hxparam] at hids
  obtain ⟨c, hc, hid⟩ := List.mem_map.mp hids
  obtain rfl : c = q := Param.eq_of_id_eq hbnodup (Param.mem_nodes_of_mem_panel hc)
    (Param.mem_nodes_of_mem_children hmember) hid
  exact absurd hc (Param.notMem_panel_of_optionalPair? hpair hkind)

/-- A settled tree with closed panels presents its forest. -/
theorem presents (h : t.IsSettled) (hclosed : ∀ id e, t.get? id = some e → e.expanded = false) :
    t.Presents t.forest := by
  have hf := h.isFaithful
  have hlive : ∀ id, t.get? id ≠ none ↔ ∃ m g, t.forest.Reaches m g ∧ m.param.id = id := by
    refine fun id => ⟨h.exists_reaches, ?_⟩
    rintro ⟨m, g, hm, rfl⟩
    obtain ⟨e, he, -⟩ := h.exists_editor hm
    simp [he]
  refine ⟨hf.roots_eq, hlive, fun m g hm => ⟨hm.mem_nodes, ?editor⟩, ?parent, hf.isTidy, ?labelled,
    ?hidden⟩
  case editor =>
    obtain ⟨e, he, hparam, hlabelled, -⟩ := h.exists_editor hm
    have hkind := hf.kind_eq _ e he
    have hpainted := h.painted _ e he
    have hexpanded := hclosed _ e he
    refine ⟨e.serial, he.trans (congrArg some (hpainted.symm.trans ?_))⟩
    rw [← hparam, ← hlabelled]
    obtain ⟨kind, serial, param, labelled, expanded, view⟩ := e
    obtain rfl : kind = param.kind := hkind
    obtain rfl : expanded = false := hexpanded
    rfl
  case parent =>
    intro m g hm
    obtain ⟨e, -, -, -, hparent⟩ := h.exists_editor hm
    exact hparent
  case labelled =>
    intro m g hm
    cases hm with
    | top hp =>
      refine ⟨fun hfalse => Bool.noConfusion hfalse, ?_⟩
      rintro ⟨b, k, flag, -, hg, -⟩
      cases hg
    | @panel b _ k hb hm =>
      rw [Param.labelled_eq_false_iff hm]
      constructor
      · rintro ⟨flag, hpair, hkind⟩
        exact ⟨b, k, flag, hb, rfl, hpair, hkind⟩
      · rintro ⟨b', k', flag, hb', hid, hpair, hkind⟩
        have hbb' := Forest.eq_of_id_eq hf.nodup_ids hb.mem_nodes hb'.mem_nodes
          (Option.some.inj hid)
        exact ⟨flag, hbb' ▸ hpair, hkind⟩
  case hidden =>
    intro q hq
    constructor
    · intro hnone
      by_cases hhidden : t.forest.Hides q.id
      · exact Or.inl hhidden
      · rcases Forest.reaches_or_splices hq hhidden with ⟨m, g, hm, rfl⟩ | hsplices
        · exact absurd hnone ((hlive _).mpr ⟨m, g, hm, rfl⟩)
        · exact Or.inr hsplices
    · rintro (hhidden | hsplices)
      · by_contra hsome
        obtain ⟨m, g, hm, hid⟩ := (hlive _).mp hsome
        exact hm.not_hides hf.nodup_ids (hid ▸ hhidden)
      · exact h.get?_eq_none_of_splices hsplices

end IsSettled

/-- A tree that has been loaded presents its definitions, whatever there was before. -/
theorem presents_load {ps : List Param} (t : EditorTree) (hps : (Forest.ids ps).Nodup) :
    (t.load ps).Presents ps := by
  have hclosed : (t.load ps).Satisfies (fun _ e => e.expanded = false) (fun _ _ => True) :=
    Satisfies.load allows_closed (fun _ _ => trivial) t
  have hpresents := (isSettled_load t hps).presents hclosed.editor
  rwa [(isSound_load t hps).2.2] at hpresents

/-- An optional value within an optional value: the outer value is a group that hides a parameter,
the inner value is no group. -/
def nestedNoise : Param :=
  .group ⟨1⟩ "noise" [("on", .leaf ⟨2⟩ ".enabled" (.flag true)),
    ("value", .group ⟨3⟩ ".enabled_value" [("seed", .leaf ⟨4⟩ "seed" (.flag true)),
      ("level", .group ⟨5⟩ "level" [("on", .leaf ⟨6⟩ ".enabled" (.flag false)),
        ("value", .leaf ⟨7⟩ ".enabled_value" (.flag true))] [])] ["seed"])] []

/-- Editors that were there before are gone, also where their ids occur again. -/
theorem presents_nestedNoise :
    (Forest.ids [nestedNoise]).Nodup ∧
    ((empty.load [.leaf ⟨3⟩ "low" (.flag true)]).load [nestedNoise]).Presents [nestedNoise] ∧
    ([1, 2, 3, 4, 5, 6, 7].map fun n =>
      let t := (empty.load [.leaf ⟨3⟩ "low" (.flag true)]).load [nestedNoise]
      (t.get? ⟨n⟩).map fun e => (t.parent? ⟨n⟩, e.labelled)) =
      [some (none, true), some (some ⟨1⟩, true), none, none, some (some ⟨1⟩, true),
        some (some ⟨5⟩, true), some (some ⟨5⟩, false)] := by
  have hids : (Forest.ids [nestedNoise]).Nodup := by decide
  exact ⟨hids, presents_load _ hids, by decide⟩

end EditorTree

end LiveTuner
