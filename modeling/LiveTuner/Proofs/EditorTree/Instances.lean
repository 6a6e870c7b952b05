import LiveTuner.Proofs.EditorTree.Run
import LiveTuner.Proofs.EditorTree.Settled
import Mathlib.Data.Nat.Bits

/-!
# Editors that stay

A tree is loaded and changed any number of times by definitions of skeletons that it has: ids,
names, kinds, the order of the attributes and what is hidden stay as they are at every depth. All
editors then live on. Each keeps its serial number, its label and the panel it stands in; a panel is
open if it has been opened and closed an odd number of times. What an editor shows is what a tree
that is loaded anew from the present definitions would show, with the same panels open.

A definition may be that of a parameter without an editor. The group that holds it is then painted
anew with everything below it, where nothing else has changed.

## Main definitions

* `EditorTree.SameInstances` — the same editors stand in the same places
* `EditorTree.toggles`, `EditorTree.togglesTaken` — how often a panel is opened or closed
* `EditorTree.ShowsAsLoaded` — editors show what they would show in a tree that is loaded anew

## Main results

* `EditorTree.IsSettled.reconcile`, `EditorTree.IsSettled.interact`,
  `EditorTree.IsSettled.bindValue` — what one change keeps
* `EditorTree.sameInstances_of_changes` — what a run keeps
-/

namespace LiveTuner

namespace Editor

variable {e e' e'' : Editor}

/-- What an editor keeps for life: kind, serial number and label. -/
def identity (e : Editor) : Kind × Nat × Bool := (e.kind, e.serial, e.labelled)

theorem Stored.identity_eq (h : Stored e e') : e'.identity = e.identity := by
  rw [identity, h.kind_eq, h.serial_eq, h.labelled_eq, identity]

/-! ### Taking a definition over -/

/-- An editor that may hold another copy of a definition below its group. Nothing else about it is
different, and it is not painted. -/
structure Rebound (e e' : Editor) : Prop where
  /-- It shows what it showed. -/
  view_eq : e'.view = e.view
  /-- It has the same stamp. -/
  stamp_eq : e'.stamp = e.stamp
  /-- A parameter that is no group holds no copies. -/
  eq_of_leaf : ∀ i name c, e.param = .leaf i name c → e' = e

theorem Rebound.refl (e : Editor) : Rebound e e := ⟨rfl, rfl, fun _ _ _ _ => rfl⟩

theorem Rebound.trans (h : Rebound e e') (h' : Rebound e' e'') : Rebound e e'' := by
  refine ⟨h'.view_eq.trans h.view_eq, h'.stamp_eq.trans h.stamp_eq, fun i name c hp => ?_⟩
  obtain rfl := h.eq_of_leaf i name c hp
  exact h'.eq_of_leaf i name c hp

theorem groupPanel_panelMounts (p : Param) :
    groupPanel (panelMounts p) = (p.panel.map Param.id).map .editor := by
  simp [groupPanel, Param.panel]

/-- The view of a painted group depends on its title, on whether its panel is open, and on the ids
in the panel. -/
theorem rebuild_eq_iff_of_group (hkind : e.kind = .group) (hpkind : e.param.kind = .group) :
    e.rebuild = e ↔ e.view =
      ⟨none, .accordion e.title e.expanded ((e.param.panel.map Param.id).map .editor)⟩ := by
  rw [rebuild_eq_iff, ← groupPanel_panelMounts]
  cases hp : e.param with
  | leaf i name c =>
    rw [hp] at hpkind
    exact absurd hpkind c.kind_ne_group
  | group i name params hidden => simp [label, widget, hkind, hp, hasPanel]

/-- If the skeleton has stayed, painting the editor changes as little as before. -/
theorem Rebound.rebuild_eq (h : Rebound e e') (hkind : e.kind = e.param.kind)
    (hskeleton : e.param.skeleton = e'.param.skeleton) (hpainted : e.rebuild = e) :
    e'.rebuild = e' := by
  cases hp : e.param with
  | leaf i name c =>
    rw [h.eq_of_leaf i name c hp]
    exact hpainted
  | group i name params hidden =>
    obtain ⟨hkind', hpkind', -, hlabelled, hexpanded, -⟩ := Stamp.mk.inj h.stamp_eq
    have hgroup : e.param.kind = .group := by rw [hp]; rfl
    -- The title and the ids in the panel are part of the skeleton.
    have hname : e'.param.name = e.param.name := by
      rw [← e.param.name_skeleton, hskeleton, e'.param.name_skeleton]
    have hids := Param.map_id_panel_of_skeleton_eq hskeleton
    have htitle : e'.title = e.title := by rw [title, title, hlabelled, hname]
    rw [rebuild_eq_iff_of_group (hkind.trans hgroup) hgroup] at hpainted
    rw [rebuild_eq_iff_of_group (hkind'.trans (hkind.trans hgroup)) (hpkind'.trans hgroup),
      h.view_eq, hpainted, htitle, hexpanded, hids]

theorem rebound_patchEditor (p : Param) (e : Editor) : Rebound e (EditorTree.patchEditor p e) := by
  refine ⟨by simp, ?_, fun i name c hp => ?_⟩
  · have hpkind : (EditorTree.patchEditor p e).param.kind = e.param.kind := by
      rw [EditorTree.param_patchEditor, EditorTree.kind_replaceDescendant]
    rw [stamp, hpkind, EditorTree.view_patchEditor, EditorTree.kind_patchEditor]
    rw [EditorTree.patchEditor]
    split <;> rfl
  · simp [EditorTree.patchEditor, hp, Param.replaceDescendant?]

end Editor

namespace EditorTree

variable {t t' t₁ t₂ : EditorTree} {p : Param} {id : ParamId} {e e' : Editor} {c : Change}
  {changes : List Change} {val : Value}

/-- Groups may have taken a definition over; nothing else has changed. -/
structure Synced (t t' : EditorTree) : Prop where
  /-- Nothing has moved. -/
  unmoved : Unmoved t t'
  /-- Every editor is as it was or holds another copy. -/
  rebound : ∀ id e', t'.get? id = some e' → ∃ e, t.get? id = some e ∧ e.Rebound e'

theorem Synced.refl (t : EditorTree) : Synced t t := ⟨.refl t, fun _ e he => ⟨e, he, .refl e⟩⟩

theorem Synced.trans (h : Synced t t₁) (h' : Synced t₁ t₂) : Synced t t₂ := by
  refine ⟨h.unmoved.trans h'.unmoved, fun id e₂ he₂ => ?_⟩
  obtain ⟨e₁, he₁, hrebound'⟩ := h'.rebound id e₂ he₂
  obtain ⟨e, he, hrebound⟩ := h.rebound id e₁ he₁
  exact ⟨e, he, hrebound.trans hrebound'⟩

theorem synced_patch (p : Param) (t : EditorTree) (g : ParamId) : Synced t (t.patch p g) := by
  have hget := get?_patch p t g
  refine ⟨⟨roots_patch p t g, parent?_patch p t g, fun z => ?_⟩, fun z x hx => ?_⟩
  · rw [hget]
    split
    · rw [Option.map_map]
      exact Option.map_congr fun x _ => (Editor.rebound_patchEditor p x).stamp_eq
    · rfl
  · rw [hget] at hx
    split at hx
    · obtain ⟨y, hy, rfl⟩ := Option.map_eq_some_iff.mp hx
      exact ⟨y, hy, Editor.rebound_patchEditor p y⟩
    · exact ⟨x, hx, .refl x⟩

theorem synced_of_syncAncestors (h : t.syncAncestors id = some t') : Synced t t' := by
  apply kept_by_syncAncestors (P := Synced t) _ (.refl t) h
  exact fun x u g _ hu => hu.trans (synced_patch x.param u g)

/-- If painting changed nothing before groups took a definition over, and no skeleton has changed,
painting changes nothing afterwards. -/
theorem Synced.painted (h : Synced t₁ t₂)
    (hpainted : ∀ id e, t₁.get? id = some e → e.rebuild = e)
    (hkind : ∀ id e, t₁.get? id = some e → e.kind = e.param.kind)
    (hskeleton : ∀ id e₁ e₂, t₁.get? id = some e₁ → t₂.get? id = some e₂ →
      e₁.param.skeleton = e₂.param.skeleton) :
    ∀ id e, t₂.get? id = some e → e.rebuild = e := by
  intro id e₂ he₂
  obtain ⟨e₁, he₁, hrebound⟩ := h.rebound id e₂ he₂
  exact hrebound.rebuild_eq (hkind id e₁ he₁) (hskeleton id e₁ e₂ he₁ he₂) (hpainted id e₁ he₁)

/-! ### The same editors -/

/-- The same ids have editors, of the same kinds, serial numbers and labels, and stand in the same
panels. -/
structure SameInstances (t t' : EditorTree) : Prop where
  /-- The topmost ids are the same. -/
  roots_eq : t'.roots = t.roots
  /-- The recorded groups are the same. -/
  parent?_eq : ∀ id, t'.parent? id = t.parent? id
  /-- The editors are the same. -/
  identity_eq : ∀ id, (t'.get? id).map Editor.identity = (t.get? id).map Editor.identity

namespace SameInstances

theorem refl (t : EditorTree) : SameInstances t t := ⟨rfl, fun _ => rfl, fun _ => rfl⟩

theorem trans (h : SameInstances t t₁) (h' : SameInstances t₁ t₂) : SameInstances t t₂ where
  roots_eq := h'.roots_eq.trans h.roots_eq
  parent?_eq id := (h'.parent?_eq id).trans (h.parent?_eq id)
  identity_eq id := (h'.identity_eq id).trans (h.identity_eq id)

theorem exists_identity_eq (h : SameInstances t t') (he' : t'.get? id = some e') :
    ∃ e, t.get? id = some e ∧ e.identity = e'.identity := by
  have hidentity := (h.identity_eq id).symm
  rw [he', Option.map_some] at hidentity
  exact Option.map_eq_some_iff.mp hidentity

theorem setEditor (he : t.get? id = some e) (hidentity : e'.identity = e.identity) :
    SameInstances t (t.setEditor id e') := by
  refine ⟨rfl, fun _ => rfl, fun z => ?_⟩
  rw [get?_setEditor]
  split
  · next hz => rw [← hz, he, Option.map_some, Option.map_some, hidentity]
  · rfl

end SameInstances

theorem Unmoved.sameInstances (h : Unmoved t t') : SameInstances t t' := by
  refine ⟨h.roots_eq, h.parent?_eq, fun id => ?_⟩
  have hstamp := congrArg (Option.map fun s : Editor.Stamp => (s.kind, s.serial, s.labelled))
    (h.stamp_eq id)
  rwa [Option.map_map, Option.map_map] at hstamp

/-- A settled tree stays settled as long as the same editors show the same, skeletons stay, and
painting changes nothing. -/
theorem IsSettled.of_sameInstances (h : t.IsSettled) (hf₂ : t₂.IsFaithful)
    (hshown : SameShown t t₂) (hsame : SameInstances t t₂)
    (hskeleton : t₂.forest.skeleton = t.forest.skeleton)
    (hpainted : ∀ id e, t₂.get? id = some e → e.rebuild = e) : t₂.IsSettled := by
  have hlabelled : ∀ {x y : Editor}, x.identity = y.identity → x.labelled = y.labelled :=
    fun heq => congrArg (fun i => i.2.2) heq
  refine ⟨hf₂, hshown.isSound h.isSound, hpainted, fun r hr e₂ he₂ => ?_,
    fun g e₂ he₂ m hm x₂ hx₂ => ?_⟩
  · obtain ⟨e, he, hidentity⟩ := hsame.exists_identity_eq he₂
    rw [← hlabelled hidentity]
    exact h.labelled_top r (hsame.roots_eq ▸ hr) e he
  · obtain ⟨e, he, -⟩ := hsame.exists_identity_eq he₂
    obtain ⟨x, hx, hidentity⟩ := hsame.exists_identity_eq hx₂
    have hgroup := h.isFaithful.skeleton_eq hf₂ hskeleton he he₂
    obtain ⟨m₀, hm₀, hm₀skeleton, hm₀labelled⟩ :=
      Param.exists_panelMount_of_skeleton_eq hgroup.symm hm
    rw [← hlabelled hidentity, ← hm₀labelled]
    exact h.labelled g e he m₀ hm₀ x (Param.id_eq_of_skeleton_eq hm₀skeleton ▸ hx)

/-! ### One change -/

/-- Whether a change is a toggle of an id that is accepted. -/
def toggles (t : EditorTree) (id : ParamId) : Change → Bool
  | .interact i .toggle => i == id && (t.interact i .toggle).any Except.isOk
  | _ => false

@[simp] theorem toggles_reconcile (t : EditorTree) (id : ParamId) (p : Param) :
    t.toggles id (.reconcile p) = false := rfl

@[simp] theorem toggles_bindValue (t : EditorTree) (id i : ParamId) (val : Value) :
    t.toggles id (.bindValue i val) = false := rfl

/-- A change leads to a settled tree of the same skeleton with the same editors. A panel is open
then if it was, or else if the change is a toggle of its id. -/
structure Continues (t : EditorTree) (c : Change) (t' : EditorTree) : Prop where
  /-- The change can be made. -/
  change_eq : t.change c = some t'
  /-- The tree is settled. -/
  isSettled : t'.IsSettled
  /-- The skeleton is the same. -/
  skeleton_eq : t'.forest.skeleton = t.forest.skeleton
  /-- The editors are the same. -/
  sameInstances : SameInstances t t'
  /-- A toggle that is accepted, and nothing else, opens or closes a panel. -/
  expanded_eq : ∀ id e e', t.get? id = some e → t'.get? id = some e' →
    Editor.hasPanel e.kind = true → e'.expanded = xor e.expanded (t.toggles id c)

/-- What is refused changes nothing. -/
theorem IsSettled.continues_of_refused (h : t.IsSettled) (heq : t.change c = some t)
    (htoggles : ∀ id, t.toggles id c = false) : t.Continues c t := by
  refine ⟨heq, h, rfl, .refl t, fun id e e' he he' _ => ?_⟩
  rw [htoggles, Bool.xor_false, Option.some.inj (he.symm.trans he')]

/-- A redefinition of a skeleton that the tree has is taken, and keeps all editors. -/
theorem IsSettled.reconcile (h : t.IsSettled) (hp : p.skeleton ∈ t.forest.skeleton.nodes) :
    ∃ t', t.Continues (.reconcile p) t' := by
  have hf := h.isFaithful
  obtain ⟨m, t₂, htaken⟩ := hf.reconcile h.isSound.held
    (Forest.keeps_of_mem_skeleton hf.nodup_ids hp) (Forest.mem_ids_of_mem_skeleton hp)
  have hskeleton : t₂.forest.skeleton = t.forest.skeleton := by
    rw [htaken.forest_eq, Forest.skeleton_define hf.nodup_ids hp]
  obtain ⟨e, he, hlabelled, heskeleton⟩ := htaken.exists_skeleton_eq hf hp
  have hmount : Unmoved t (t.mount m (t.parent? m.param.id)) := by
    have hunmoved := h.unmoved_mount he heskeleton
    rwa [hlabelled] at hunmoved
  have hpainted : (t.mount m (t.parent? m.param.id)).Satisfies (fun _ e => e.rebuild = e)
      (fun _ _ => True) :=
    Satisfies.mount ⟨h.painted, fun _ _ _ => trivial⟩ allows_painted trivial fun _ _ => trivial
  have hsynced : Synced (t.mount m (t.parent? m.param.id)) t₂ :=
    synced_of_syncAncestors htaken.remount_eq
  have hunmoved := hmount.trans hsynced.unmoved
  refine ⟨t₂, by simp [change, htaken.reconcile_eq], ?_, hskeleton, hunmoved.sameInstances,
    fun id x x₂ hx hx₂ _ => ?_⟩
  · refine h.of_sameInstances htaken.isFaithful hunmoved.sameShown hunmoved.sameInstances hskeleton
      (hsynced.painted hpainted.editor (fun z x₁ hx₁ => ?_) fun z x₁ x₂ hx₁ hx₂ => ?_)
    · obtain ⟨x, hx, hstamp⟩ := hmount.symm.exists_stamp_eq hx₁
      obtain ⟨hkind, hpkind, -⟩ := Editor.Stamp.mk.inj hstamp
      rw [← hkind, ← hpkind]
      exact hf.kind_eq z x hx
    · obtain ⟨x, hx, hxskeleton⟩ := h.isFresh.exists_of_mounted hf h.isSound.toIsLinked
        ⟨e, he, heskeleton⟩ htaken.mounting hx₁
      rw [← hxskeleton]
      exact hf.skeleton_eq htaken.isFaithful hskeleton hx hx₂
  · obtain ⟨y, hy, hstamp⟩ := hunmoved.exists_stamp_eq hx
    obtain rfl := Option.some.inj (hy.symm.trans hx₂)
    rw [toggles_reconcile, Bool.xor_false]
    exact congrArg Editor.Stamp.expanded hstamp

/-- Once a value has been stored in the editor of a parameter, the groups above take it over, and no
skeleton changes. -/
theorem IsFaithful.store (hf : t.IsFaithful) (hh : t.IsHeld) (he : t.get? id = some e)
    (hstored : e.Stored e') :
    ∃ t₂, (t.setEditor id e').syncAncestors id = some t₂ ∧ SameShown t t₂ ∧ t₂.IsFaithful ∧
      t₂.forest.skeleton = t.forest.skeleton ∧ e.param.skeleton = e'.param.skeleton := by
  obtain ⟨i, name, c, c', hp, hp', hc⟩ := hstored.exists_leaf
  obtain ⟨t₂, hsync, hshown, hf₂, hforest⟩ := hf.sync_setEditor hh he hstored.kind_eq
    hstored.childIds_eq hp hp' hc
  have hleaf : e.param.skeleton = e'.param.skeleton := by
    rw [hp, hp', Param.skeleton_leaf_of_kind_eq hc.symm]
  refine ⟨t₂, hsync, hshown, hf₂, ?_, hleaf⟩
  rw [hforest, Forest.skeleton_define hf.nodup_ids]
  exact Forest.mem_skeleton_nodes_iff.mpr ⟨e.param, (hf.bound id e he).1, hp' ▸ hleaf⟩

/-- Once a value has been stored in the editor of a parameter and the groups above have taken it
over, all editors are as they were but for the value. -/
theorem IsSettled.store (h : t.IsSettled) (he : t.get? id = some e) (hstored : e.Stored e') :
    ∃ t₂, (t.setEditor id e').syncAncestors id = some t₂ ∧ t₂.IsSettled ∧
      t₂.forest.skeleton = t.forest.skeleton ∧ SameInstances t t₂ ∧
      ∀ z x x₂, t.get? z = some x → t₂.get? z = some x₂ → x₂.expanded = x.expanded := by
  have hf := h.isFaithful
  have hkind := hf.kind_eq id e he
  obtain ⟨t₂, hsync, hshown, hf₂, hskeleton, hleaf⟩ := hf.store h.isSound.held he hstored
  have hsynced := synced_of_syncAncestors hsync
  have hset : SameInstances t (t.setEditor id e') := .setEditor he hstored.identity_eq
  have hsame := hset.trans hsynced.unmoved.sameInstances
  -- Every editor was there before, of the same kind, and bound to the same skeleton.
  have hold : ∀ z x₁, (t.setEditor id e').get? z = some x₁ →
      ∃ x, t.get? z = some x ∧ x.param.skeleton = x₁.param.skeleton ∧
        x₁.kind = x.kind ∧ x₁.expanded = x.expanded ∧ (x.rebuild = x → x₁.rebuild = x₁) := by
    intro z x₁ hx₁
    rw [get?_setEditor] at hx₁
    split at hx₁
    · next hz =>
      obtain rfl := Option.some.inj hx₁
      exact ⟨e, hz ▸ he, hleaf, hstored.kind_eq, hstored.expanded_eq, hstored.rebuild_eq hkind⟩
    · exact ⟨x₁, hx₁, rfl, rfl, rfl, fun hx => hx⟩
  refine ⟨t₂, hsync, h.of_sameInstances hf₂ hshown hsame hskeleton (hsynced.painted
    (fun z x₁ hx₁ => ?_) (fun z x₁ hx₁ => ?_) fun z x₁ x₂ hx₁ hx₂ => ?_), hskeleton, hsame,
    fun z x x₂ hx hx₂ => ?_⟩
  · obtain ⟨x, hx, -, -, -, hpainted⟩ := hold z x₁ hx₁
    exact hpainted (h.painted z x hx)
  · obtain ⟨x, hx, hxskeleton, hxkind, -⟩ := hold z x₁ hx₁
    rw [hxkind, hf.kind_eq z x hx]
    exact Param.kind_eq_of_skeleton_eq hxskeleton
  · obtain ⟨x, hx, hxskeleton, -⟩ := hold z x₁ hx₁
    rw [← hxskeleton]
    exact hf.skeleton_eq hf₂ hskeleton hx hx₂
  · obtain ⟨x₁, hx₁, hrebound⟩ := hsynced.rebound z x₂ hx₂
    obtain ⟨y, hy, -, -, hexpanded, -⟩ := hold z x₁ hx₁
    obtain rfl := Option.some.inj (hx.symm.trans hy)
    rw [← hexpanded]
    exact congrArg Editor.Stamp.expanded hrebound.stamp_eq

/-- Opening or closing a panel keeps all editors, and changes no other panel. -/
theorem IsSettled.setExpanded (h : t.IsSettled) (he : t.get? id = some e)
    (hpanel : Editor.hasPanel e.kind = true) (expanded : Bool) :
    (t.setEditor id (e.setExpanded expanded)).IsSettled ∧
      (t.setEditor id (e.setExpanded expanded)).forest = t.forest ∧
      SameInstances t (t.setEditor id (e.setExpanded expanded)) := by
  have hf := h.isFaithful
  have hsame : SameInstances t (t.setEditor id (e.setExpanded expanded)) := .setEditor he rfl
  obtain ⟨hshown, hf₂, hforest⟩ := hf.setExpanded he expanded
  refine ⟨h.of_sameInstances hf₂ hshown hsame (by rw [hforest]) fun z x hx => ?_, hforest, hsame⟩
  rw [get?_setEditor] at hx
  split at hx
  · obtain rfl := Option.some.inj hx
    exact Editor.rebuild_setExpanded hpanel (h.painted id e he) expanded
  · exact h.painted z x hx

/-- A pushed value keeps all editors. -/
theorem IsSettled.bindValue (h : t.IsSettled) (id : ParamId) (val : Value) :
    ∃ t', t.Continues (.bindValue id val) t' := by
  rcases bindValue_cases (h.isFaithful.kind_eq id) val with ⟨problem, hbind⟩ |
    ⟨e, e', he, hstored, -, hbind⟩
  · exact ⟨t, h.continues_of_refused (by simp [change, hbind]) fun _ => rfl⟩
  · obtain ⟨t₂, hsync, hsettled, hskeleton, hsame, hexpanded⟩ := h.store he hstored
    refine ⟨t₂, by simp [change, hbind, hsync], hsettled, hskeleton, hsame,
      fun z x x₂ hx hx₂ _ => ?_⟩
    rw [hexpanded z x x₂ hx hx₂, toggles_bindValue, Bool.xor_false]

/-- A toggle that is accepted opens or closes its panel, and keeps all editors. -/
theorem IsSettled.toggle (h : t.IsSettled) (he : t.get? id = some e)
    (hpanel : Editor.hasPanel e.kind = true)
    (heq : t.interact id .toggle =
      some (.ok (t.setEditor id (e.setExpanded (!e.expanded)), none))) :
    t.Continues (.interact id .toggle) (t.setEditor id (e.setExpanded (!e.expanded))) := by
  obtain ⟨hsettled, hforest, hsame⟩ := h.setExpanded he hpanel (!e.expanded)
  refine ⟨by simp [change, heq], hsettled, by rw [hforest], hsame, fun z x x₂ hx hx₂ _ => ?_⟩
  rw [get?_setEditor] at hx₂
  split at hx₂
  · next hz =>
    subst hz
    obtain rfl := Option.some.inj (he.symm.trans hx)
    obtain rfl := Option.some.inj hx₂
    simp [toggles, heq, Except.isOk, Except.toBool, Editor.setExpanded]
  · next hz =>
    obtain rfl := Option.some.inj (hx.symm.trans hx₂)
    have hz' : (id == z) = false := beq_eq_false_iff_ne.mpr hz
    simp [toggles, hz']

/-- An interaction with an editor that tells a value toggles no panel. -/
theorem toggles_eq_false_of_told (he : t.get? id = some e) (hkind : e.kind = e.param.kind)
    {interaction : Interaction} (hinteract : e.interact interaction = .ok (e', some val))
    {z : ParamId} {x : Editor} (hx : t.get? z = some x) (hpanel : Editor.hasPanel x.kind = true) :
    t.toggles z (.interact id interaction) = false := by
  cases interaction with
  | setValue | setComponent | pick => rfl
  | toggle =>
    -- An editor with a panel would have been toggled, and told nothing.
    have hne : id ≠ z := by
      rintro rfl
      obtain rfl := Option.some.inj (he.symm.trans hx)
      rw [Editor.interact_toggle hpanel hkind] at hinteract
      simp at hinteract
    have hz : (id == z) = false := beq_eq_false_iff_ne.mpr hne
    simp [toggles, hz]

/-- An interaction keeps all editors; it opens or closes a panel if it is a toggle. -/
theorem IsSettled.interact (h : t.IsSettled) (id : ParamId) (interaction : Interaction) :
    ∃ t', t.Continues (.interact id interaction) t' := by
  have hkind := h.isFaithful.kind_eq id
  rcases interact_cases hkind interaction with ⟨problem, heq⟩ | ⟨e, he, hpanel, rfl, heq⟩ |
    ⟨e, e', i, name, c, c', he, hinteract, hstored, -, -, -, heq⟩
  · refine ⟨t, h.continues_of_refused (by simp [change, heq]) fun z => ?_⟩
    cases interaction with
    | toggle => simp [toggles, heq, Except.isOk, Except.toBool]
    | setValue | setComponent | pick => rfl
  · exact ⟨_, h.toggle he hpanel heq⟩
  · obtain ⟨t₂, hsync, hsettled, hskeleton, hsame, hexpanded⟩ := h.store he hstored
    refine ⟨t₂, by simp [change, heq, hsync], hsettled, hskeleton, hsame,
      fun z x x₂ hx hx₂ hpanel => ?_⟩
    rw [hexpanded z x x₂ hx hx₂, toggles_eq_false_of_told he (hkind e he) hinteract hx hpanel,
      Bool.xor_false]

/-! ### Runs -/

/-- How many changes of a run are toggles of an id that are accepted. -/
def togglesTaken (t : EditorTree) (id : ParamId) : List Change → Nat
  | [] => 0
  | c :: rest => (t.toggles id c).toNat +
    match t.change c with
    | some t' => t'.togglesTaken id rest
    | none => 0

/-- A redefinition is of a skeleton that the forest has; other changes are free. -/
def Change.KeepsSkeleton (f : Forest) : Change → Prop
  | .reconcile p => p.skeleton ∈ f.skeleton.nodes
  | _ => True

instance (f : Forest) : (c : Change) → Decidable (c.KeepsSkeleton f)
  | .reconcile _ => decidable_of_iff _ Forest.mem_skeleton_nodes_iff.symm
  | .interact .. => .isTrue trivial
  | .bindValue .. => .isTrue trivial

/-- Whether the panel of an id is open. -/
def isOpen (t : EditorTree) (id : ParamId) : Bool := (t.get? id).any (·.expanded)

/-- Every id shows what it would show, with the same panels open, in a tree that is loaded anew from
the definitions that the topmost editors are bound to. -/
def ShowsAsLoaded (t : EditorTree) : Prop :=
  ∀ id, (t.get? id).map (·.view) = ((empty.load t.forest).get? id).map fun e =>
    ({ e with expanded := t.isOpen id } : Editor).rebuild.view

/-- A change that keeps the skeleton keeps all editors. -/
theorem IsSettled.exists_continues (h : t.IsSettled) (hc : c.KeepsSkeleton t.forest) :
    ∃ t', t.Continues c t' := by
  cases c with
  | reconcile p => exact h.reconcile hc
  | interact id interaction => exact h.interact id interaction
  | bindValue id val => exact h.bindValue id val

/-- Along a run the editors stay, and each panel is opened and closed as often as it is toggled. -/
theorem IsSettled.foldlM_change (h : t.IsSettled) (hc : ∀ c ∈ changes, c.KeepsSkeleton t.forest) :
    ∃ t', changes.foldlM change t = some t' ∧ t'.IsSettled ∧ SameInstances t t' ∧
      ∀ id e e', t.get? id = some e → t'.get? id = some e' → Editor.hasPanel e.kind = true →
        e'.expanded = xor e.expanded (t.togglesTaken id changes).bodd := by
  induction changes generalizing t with
  | nil =>
    refine ⟨t, rfl, h, .refl t, fun id e e' he he' _ => ?_⟩
    rw [Option.some.inj (he.symm.trans he')]
    simp [togglesTaken]
  | cons c rest ih =>
    obtain ⟨hfirst, hrest⟩ := List.forall_mem_cons.mp hc
    obtain ⟨t₁, hstep⟩ := h.exists_continues hfirst
    have hrest₁ : ∀ c ∈ rest, c.KeepsSkeleton t₁.forest := by
      intro c' hc'
      cases c' with
      | reconcile p =>
        rw [Change.KeepsSkeleton, hstep.skeleton_eq]
        exact hrest _ hc'
      | interact | bindValue => trivial
    obtain ⟨t', hrun, hsettled, hsame, hexpanded⟩ := ih hstep.isSettled hrest₁
    refine ⟨t', by rw [List.foldlM_cons, hstep.change_eq]; exact hrun, hsettled,
      hstep.sameInstances.trans hsame, fun id e e' he he' hpanel => ?_⟩
    obtain ⟨e₁, he₁, hidentity⟩ := hsame.exists_identity_eq he'
    obtain ⟨x, hx, hidentity₁⟩ := hstep.sameInstances.exists_identity_eq he₁
    obtain rfl := Option.some.inj (he.symm.trans hx)
    have hkind : e.kind = e₁.kind := congrArg Prod.fst hidentity₁
    have hparity : (t.togglesTaken id (c :: rest)).bodd =
        xor (t.toggles id c) (t₁.togglesTaken id rest).bodd := by
      rw [togglesTaken, hstep.change_eq, Nat.bodd_add]
      cases t.toggles id c <;> rfl
    rw [hexpanded id e₁ e' he₁ he' (hkind ▸ hpanel), hstep.expanded_eq id e e₁ he he₁ hpanel,
      hparity, Bool.xor_assoc]

/-- What a settled tree shows is decided by its forest and by which panels are open. -/
theorem IsSettled.showsAsLoaded (h : t.IsSettled) : t.ShowsAsLoaded := by
  intro id
  have h₀ := isSettled_load empty h.isFaithful.nodup_ids
  have hforest : (empty.load t.forest).forest = t.forest :=
    (isSound_load empty h.isFaithful.nodup_ids).2.2
  cases he : t.get? id with
  | none =>
    cases he₀ : (empty.load t.forest).get? id with
    | none => rfl
    | some e₀ =>
      obtain ⟨e, he', -⟩ := h₀.exists_alike h hforest.symm he₀
      simp [he] at he'
  | some e =>
    obtain ⟨e₀, he₀, hparam, hlabelled⟩ := h.exists_alike h₀ hforest he
    have hkind : e₀.kind = e.kind := by
      rw [h₀.isFaithful.kind_eq id e₀ he₀, h.isFaithful.kind_eq id e he, hparam]
    have hopen : t.isOpen id = e.expanded := by simp [isOpen, he]
    rw [he₀, Option.map_some, Option.map_some, Option.some_inj,
      Editor.rebuild_eq_iff.mp (h.painted id e he), hopen]
    simp only [Editor.rebuild, Editor.label, Editor.widget, Editor.title, hkind, hparam, hlabelled]

/-- A tree is loaded from definitions without repeated ids and changed by redefinitions of skeletons
that it has, by interactions and by pushed values, in any order. All changes can be made. The same
ids have editors as in the beginning, with the same serial numbers and labels and in the same
panels; a panel is open if its toggles that were accepted are odd in number; and every editor shows
what it would show in a tree that is loaded anew. -/
theorem sameInstances_of_changes (t : EditorTree) {ps : List Param}
    (hps : (Forest.ids ps).Nodup) (h : ∀ c ∈ changes, c.KeepsSkeleton ps) :
    ∃ t', changes.foldlM change (t.load ps) = some t' ∧ SameInstances (t.load ps) t' ∧
      (∀ id e, t'.get? id = some e → Editor.hasPanel e.kind = true →
        e.expanded = ((t.load ps).togglesTaken id changes).bodd) ∧
      t'.ShowsAsLoaded := by
  have hsettled := isSettled_load t hps
  have hclosed : (t.load ps).Satisfies _ _ := Satisfies.load allows_closed (fun _ _ => trivial) t
  have hforest : (t.load ps).forest = ps := (isSound_load t hps).2.2
  obtain ⟨t', hrun, hsettled', hsame, hexpanded⟩ :=
    hsettled.foldlM_change (by rwa [hforest])
  refine ⟨t', hrun, hsame, fun id e he hpanel => ?_, hsettled'.showsAsLoaded⟩
  obtain ⟨e₀, he₀, hidentity⟩ := hsame.exists_identity_eq he
  have hkind : e₀.kind = e.kind := congrArg Prod.fst hidentity
  rw [hexpanded id e₀ e he₀ he (hkind ▸ hpanel), hclosed.editor id e₀ he₀, Bool.false_xor]

/-- A panel is toggled three times; in between, the flag of an optional value and the value itself,
which has no editor, come in anew, and a value is pushed. -/
def retuning : List Change :=
  [.interact ⟨1⟩ .toggle, .reconcile (.leaf ⟨2⟩ ".enabled" (.flag false)),
    .interact ⟨1⟩ .toggle, .reconcile (.group ⟨3⟩ ".enabled_value"
      [("low", .leaf ⟨4⟩ "low" (.flag false)), ("high", .leaf ⟨5⟩ "high" (.flag true))] []),
    .bindValue ⟨5⟩ (.bool false), .interact ⟨1⟩ .toggle]

theorem sameInstances_retuning :
    (Forest.ids [optionalNoise]).Nodup ∧ (∀ c ∈ retuning, c.KeepsSkeleton [optionalNoise]) ∧
    ((empty.load [optionalNoise]).get? ⟨3⟩).isNone ∧
    (empty.load [optionalNoise]).togglesTaken ⟨1⟩ retuning = 3 ∧
    ∃ t', retuning.foldlM change (empty.load [optionalNoise]) = some t' ∧
      SameInstances (empty.load [optionalNoise]) t' ∧
      (∀ id e, t'.get? id = some e → Editor.hasPanel e.kind = true →
        e.expanded = ((empty.load [optionalNoise]).togglesTaken id retuning).bodd) ∧
      t'.ShowsAsLoaded :=
  have hids : (Forest.ids [optionalNoise]).Nodup := by decide
  have hkeeps : ∀ c ∈ retuning, c.KeepsSkeleton [optionalNoise] := by decide
  ⟨hids, hkeeps, by decide, by decide, sameInstances_of_changes empty hids hkeeps⟩

end EditorTree

end LiveTuner
