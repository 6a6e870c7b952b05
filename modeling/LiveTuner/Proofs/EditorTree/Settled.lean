import LiveTuner.Proofs.EditorTree.Everywhere
import LiveTuner.Proofs.EditorTree.Fresh

/-!
# Settled trees

A tree is settled if painting any of its editors would change nothing, and every editor is labelled
as the panel that shows it asks for. A tree is loaded settled. What its editors show is then decided
by the forest they are bound to and by which panels are open: two settled trees of one forest have
editors for the same ids, bound and labelled alike.

To mount a definition in place of one of the same skeleton then asks for nothing but what is there.
Such a mount makes no editor and takes none away.

## Main definitions

* `Mount.Reaches` — what a mount comes to mount in its turn
* `EditorTree.HasMount` — the editor that a mount asks for is there
* `EditorTree.Unmoved` — editors keep their kinds, serial numbers, labels and panels
* `EditorTree.IsSettled` — painting changes nothing, and labels are as panels ask for

## Main results

* `EditorTree.unmoved_mountWithin` — a mount that asks for what is there moves nothing
* `EditorTree.isSettled_load` — a tree is loaded settled
* `EditorTree.IsSettled.exists_alike` — settled trees of one forest are alike
-/

namespace LiveTuner

namespace Mount

variable {m m' c : Mount} {par g : Option ParamId}

/-- Mounting `m` below `par` comes to mounting `m'` below `g`. -/
inductive Reaches (m : Mount) (par : Option ParamId) : Mount → Option ParamId → Prop where
  /-- The mount itself. -/
  | self : Reaches m par m par
  /-- What the panel of a mounted group asks for is mounted there. -/
  | panel {b m' : Mount} {g : Option ParamId} (hb : Reaches m par b g)
    (hm : m' ∈ panelMounts b.param) : Reaches m par m' (some b.param.id)

theorem reaches_iff : m.Reaches par m' g ↔
    m' = m ∧ g = par ∨ ∃ c ∈ panelMounts m.param, c.Reaches (some m.param.id) m' g := by
  constructor
  · intro h
    induction h with
    | self => exact Or.inl ⟨rfl, rfl⟩
    | @panel b m' g hb hm ih =>
      rcases ih with ⟨rfl, rfl⟩ | ⟨c, hc, hreaches⟩
      · exact Or.inr ⟨m', hm, .self⟩
      · exact Or.inr ⟨c, hc, hreaches.panel hm⟩
  · rintro (⟨rfl, rfl⟩ | ⟨c, hc, hreaches⟩)
    · exact .self
    · induction hreaches with
      | self => exact .panel .self hc
      | panel _ hm ih => exact ih.panel hm

theorem Reaches.placed (h : m.Reaches par m' g) : m.param.Placed par m'.param g := by
  induction h with
  | self => exact .self
  | panel _ hm ih => exact ih.panel (List.mem_map_of_mem hm)

end Mount

/-- Whatever a mount places, it mounts there with some label. -/
theorem Param.Placed.exists_reaches {p q : Param} {par g : Option ParamId}
    (h : p.Placed par q g) (labelled : Bool) :
    ∃ m, Mount.Reaches ⟨p, labelled⟩ par m g ∧ m.param = q := by
  induction h with
  | self => exact ⟨⟨p, labelled⟩, .self, rfl⟩
  | @panel b q g _ hq ih =>
    obtain ⟨mb, hmb, rfl⟩ := ih
    obtain ⟨m, hm, rfl⟩ := List.mem_map.mp hq
    exact ⟨m, hmb.panel hm, rfl⟩

namespace Editor

/-- What there is to an editor beside the definition it is bound to and the values it shows. -/
structure Stamp where
  /-- The kind of parameter it edits. -/
  kind : Kind
  /-- The kind of the parameter it is bound to. -/
  paramKind : Kind
  /-- The serial number. -/
  serial : Nat
  /-- Whether it shows its label. -/
  labelled : Bool
  /-- Whether its panel is open. -/
  expanded : Bool
  /-- The editors that its panel refers to. -/
  childIds : List ParamId

/-- The stamp of an editor. -/
def stamp (e : Editor) : Stamp :=
  ⟨e.kind, e.param.kind, e.serial, e.labelled, e.expanded, e.view.childIds⟩

end Editor

namespace EditorTree

variable {s t t' t₁ t₂ : EditorTree} {m m' : Mount} {p q : Param} {par g : Option ParamId}
  {id : ParamId} {e e' : Editor} {bound : Nat}

/-! ### Mounting what is there -/

/-- The editors have the same stamps, and stand below the same groups. -/
structure Unmoved (t t' : EditorTree) : Prop where
  /-- The topmost ids are the same. -/
  roots_eq : t'.roots = t.roots
  /-- The recorded groups are the same. -/
  parent?_eq : ∀ id, t'.parent? id = t.parent? id
  /-- The same ids have editors, of the same stamps. -/
  stamp_eq : ∀ id, (t'.get? id).map Editor.stamp = (t.get? id).map Editor.stamp

namespace Unmoved

theorem refl (t : EditorTree) : Unmoved t t := ⟨rfl, fun _ => rfl, fun _ => rfl⟩

theorem trans (h : Unmoved t t₁) (h' : Unmoved t₁ t₂) : Unmoved t t₂ where
  roots_eq := h'.roots_eq.trans h.roots_eq
  parent?_eq id := (h'.parent?_eq id).trans (h.parent?_eq id)
  stamp_eq id := (h'.stamp_eq id).trans (h.stamp_eq id)

theorem symm (h : Unmoved t t') : Unmoved t' t where
  roots_eq := h.roots_eq.symm
  parent?_eq id := (h.parent?_eq id).symm
  stamp_eq id := (h.stamp_eq id).symm

theorem exists_stamp_eq (h : Unmoved t t') (he : t.get? id = some e) :
    ∃ e', t'.get? id = some e' ∧ e'.stamp = e.stamp := by
  have hstamp := h.stamp_eq id
  rw [he] at hstamp
  exact Option.map_eq_some_iff.mp hstamp

theorem get?_eq_none_iff (h : Unmoved t t') (id : ParamId) :
    t'.get? id = none ↔ t.get? id = none := by
  rw [← Option.map_eq_none_iff (f := Editor.stamp), h.stamp_eq, Option.map_eq_none_iff]

theorem shows {g c : ParamId} (h : Unmoved t t') (hgc : t.Shows g c) : t'.Shows g c := by
  obtain ⟨e, he, hc⟩ := hgc
  obtain ⟨e', he', hstamp⟩ := h.exists_stamp_eq he
  have hchildIds : e'.view.childIds = e.view.childIds := congrArg Editor.Stamp.childIds hstamp
  exact ⟨e', he', hchildIds ▸ hc⟩

theorem sameShown (h : Unmoved t t') : SameShown t t' :=
  ⟨h.roots_eq, h.parent?_eq, h.get?_eq_none_iff, fun _ _ => ⟨h.symm.shows, h.shows⟩⟩

/-- An editor of the same stamp in place of another moves nothing. -/
theorem setEditor (he : t.get? id = some e) (hstamp : e'.stamp = e.stamp) :
    Unmoved t (t.setEditor id e') := by
  refine ⟨rfl, fun _ => rfl, fun z => ?_⟩
  rw [get?_setEditor]
  split
  · next hz => rw [← hz, he, Option.map_some, Option.map_some, hstamp]
  · rfl

end Unmoved

/-- The editor that a mount asks for is there, below the group, with the panel that the mount asks
for. -/
structure HasMount (t : EditorTree) (m : Mount) (g : Option ParamId) : Prop where
  /-- The editor is of the kind, labelled and with the panel that is asked for. -/
  editor : ∃ e, t.get? m.param.id = some e ∧ e.kind = m.param.kind ∧
    e.param.kind = m.param.kind ∧ e.labelled = m.labelled ∧
    e.view.childIds = m.param.panel.map Param.id
  /-- It stands below the group. -/
  parent?_eq : t.parent? m.param.id = g

theorem HasMount.of_eq (h : t.HasMount m g) (hget : t'.get? m.param.id = t.get? m.param.id)
    (hparent : t'.parent? m.param.id = t.parent? m.param.id) : t'.HasMount m g := by
  obtain ⟨⟨e, he, heditor⟩, hg⟩ := h
  exact ⟨⟨e, hget.trans he, heditor⟩, hparent.trans hg⟩

theorem HasMount.of_unmoved (h : t.HasMount m g) (hu : Unmoved t t') : t'.HasMount m g := by
  obtain ⟨⟨e, he, heditor⟩, hg⟩ := h
  obtain ⟨e', he', hstamp⟩ := hu.exists_stamp_eq he
  obtain ⟨hkind, hpkind, -, hlabelled, -, hchildIds⟩ := Editor.Stamp.mk.inj hstamp
  refine ⟨⟨e', he', ?_⟩, (hu.parent?_eq _).trans hg⟩
  rwa [hkind, hpkind, hlabelled, hchildIds]

/-- Mounts that ask for what is there, one after the other, move nothing. -/
theorem unmoved_foldl {f : EditorTree → Mount → EditorTree} {mounts : List Mount}
    (hf : ∀ m ∈ mounts, ∀ s : EditorTree, (∀ m' g, m.Reaches par m' g → s.HasMount m' g) →
      Unmoved s (f s m))
    (h : ∀ m ∈ mounts, ∀ m' g, m.Reaches par m' g → s.HasMount m' g) :
    Unmoved s (mounts.foldl f s) := by
  induction mounts generalizing s with
  | nil => exact .refl s
  | cons m rest ih =>
    obtain ⟨hm, hrest⟩ := List.forall_mem_cons.mp h
    have hfirst := hf m List.mem_cons_self s hm
    refine hfirst.trans (ih (fun m' hm' => hf m' (List.mem_cons_of_mem _ hm')) ?_)
    exact fun m' hm' x g hx => (hrest m' hm' x g hx).of_unmoved hfirst

/-- A mount that asks, at every depth, for what is there moves nothing. -/
theorem unmoved_mountWithin (h : ∀ m' g, m.Reaches par m' g → s.HasMount m' g) (bound : Nat) :
    Unmoved s (mountWithin bound par s m) := by
  induction bound generalizing s m par with
  | zero => exact .refl s
  | succ bound ih =>
    obtain ⟨⟨e, he, hkind, hpkind, hlabelled, hchildIds⟩, hparent⟩ := h m par .self
    have hreuse : s.editorFor m =
        ({ e.bind m.param with labelled := m.labelled }, s, e.view.childIds) := by
      simp [editorFor, he, hpkind]
    rw [mountWithin, hreuse]
    dsimp only
    generalize hbound : ({ e.bind m.param with labelled := m.labelled } : Editor) = e'
    have hekind : e'.kind = e'.param.kind := by rw [← hbound]; exact hkind
    have hparam : e'.param = m.param := by rw [← hbound]; rfl
    have hmounts : e'.rebuild.mounts = panelMounts m.param := by
      rw [mounts_eq (e := e'.rebuild) hekind, ← hparam]
      rfl
    have hpanel : e'.rebuild.view.childIds = m.param.panel.map Param.id := by
      rw [childIds_of_rebuild_eq (e := e'.rebuild) hekind rfl, ← hparam]
      rfl
    have hstamp : e'.rebuild.stamp = e.stamp := by
      rw [Editor.stamp, hpanel, ← hchildIds, ← hbound, Editor.stamp, hpkind, hlabelled]
      rfl
    have hpainted : Unmoved s ((s.setEditor m.param.id e'.rebuild).setParent m.param.id par) := by
      have hset := Unmoved.setEditor he hstamp
      refine hset.trans ⟨by simp, fun z => ?_, fun z => by simp⟩
      rw [parent?_setParent, parent?_setEditor]
      split
      · next hz => rw [← hz, hparent]
      · rfl
    -- The panel asks for nothing but what is there, and there is nothing else in it.
    have hnone : e.view.childIds.filter
        (!((panelMounts m.param).map (·.param.id)).contains ·) = [] := by
      rw [hchildIds, List.filter_eq_nil_iff]
      intro i hi
      simpa [Param.panel] using hi
    rw [hmounts, hnone]
    refine hpainted.trans (unmoved_foldl (fun m' _ s' hs' => ih hs') fun m' hm' x g hx => ?_)
    exact (h x g (Mount.reaches_iff.mpr (Or.inr ⟨m', hm', hx⟩))).of_unmoved hpainted

/-! ### Mounting what is new -/

/-- An id has the editor that it had, and stands where it stood. -/
def Untouched (s s' : EditorTree) (z : ParamId) : Prop :=
  s'.get? z = s.get? z ∧ s'.parent? z = s.parent? z

/-- What comes of mounts of ids that have no editors: every editor that they ask for, and no other
change. -/
structure Founded (ms : List Mount) (par : Option ParamId) (s s' : EditorTree) : Prop where
  /-- Other ids are untouched. -/
  untouched : ∀ z ∉ ms.flatMap (·.param.ids), Untouched s s' z
  /-- What is asked for is there. -/
  hasMount : ∀ m ∈ ms, ∀ m' g, m.Reaches par m' g → s'.HasMount m' g

/-- Mounts of ids that they do not share and that have no editors, one after the other. -/
theorem founded_foldl {f : EditorTree → Mount → EditorTree} {ms : List Mount}
    (hf : ∀ m ∈ ms, ∀ s : EditorTree, (∀ id ∈ m.param.ids, s.get? id = none) →
      Founded [m] par s (f s m))
    (hnodup : (ms.flatMap (·.param.ids)).Nodup)
    (hnew : ∀ id ∈ ms.flatMap (·.param.ids), s.get? id = none) :
    Founded ms par s (ms.foldl f s) := by
  induction ms generalizing s with
  | nil => exact ⟨fun _ _ => ⟨rfl, rfl⟩, fun m hm => absurd hm List.not_mem_nil⟩
  | cons m rest ih =>
    rw [List.flatMap_cons] at hnodup hnew
    obtain ⟨-, hrest, hdisj⟩ := List.nodup_append.mp hnodup
    have hfirst := hf m List.mem_cons_self s fun id hid => hnew id (List.mem_append_left _ hid)
    -- The mount of the first leaves the ids of the others alone, and they leave its own alone.
    have hsame : ∀ z ∉ m.param.ids, Untouched s (f s m) z := fun z hz =>
      hfirst.untouched z (by simpa using hz)
    have hothers := ih (s := f s m) (fun m' hm' => hf m' (List.mem_cons_of_mem _ hm')) hrest
      fun id hid => by
        rw [(hsame id fun hidm => hdisj id hidm id hid rfl).1]
        exact hnew id (List.mem_append_right _ hid)
    refine ⟨fun z hz => ?_, fun b hb m' g hreaches => ?_⟩
    · rw [List.flatMap_cons, List.mem_append, not_or] at hz
      have hlast := hothers.untouched z hz.2
      have hsame' := hsame z hz.1
      exact ⟨hlast.1.trans hsame'.1, hlast.2.trans hsame'.2⟩
    · rcases List.mem_cons.mp hb with rfl | hb
      · have hid := hreaches.placed.id_mem_ids
        have hlast := hothers.untouched m'.param.id fun hmem => hdisj _ hid _ hmem rfl
        exact (hfirst.hasMount b (by simp) m' g hreaches).of_eq hlast.1 hlast.2
      · exact hothers.hasMount b hb m' g hreaches

/-- A new editor placed in the tree. -/
def place (s : EditorTree) (m : Mount) (par : Option ParamId) : EditorTree :=
  (({ s with serials := s.serials + 1 } : EditorTree).setEditor m.param.id
    (Editor.create m.param m.labelled (s.serials + 1)).rebuild).setParent m.param.id par

/-- Without an editor of its id, a mount places a new one and goes on with its panel. -/
theorem mountWithin_of_new (hnew : s.get? m.param.id = none) (bound : Nat) :
    mountWithin (bound + 1) par s m =
      (panelMounts m.param).foldl (mountWithin bound (some m.param.id)) (s.place m par) := by
  have hmake : s.editorFor m = (Editor.create m.param m.labelled (s.serials + 1),
      { s with serials := s.serials + 1 }, []) := by
    simp [editorFor, hnew]
  have hmounts : (Editor.create m.param m.labelled (s.serials + 1)).rebuild.mounts =
      panelMounts m.param := mounts_eq rfl
  rw [mountWithin, hmake]
  dsimp only
  rw [hmounts]
  rfl

theorem hasMount_place (s : EditorTree) (m : Mount) (par : Option ParamId) :
    (s.place m par).HasMount m par := by
  have hget : (s.place m par).get? m.param.id =
      some (Editor.create m.param m.labelled (s.serials + 1)).rebuild := by
    simp [place]
  refine ⟨⟨_, hget, rfl, rfl, rfl, ?_⟩, by simp [place]⟩
  have hkind : (Editor.create m.param m.labelled (s.serials + 1)).rebuild.kind =
      (Editor.create m.param m.labelled (s.serials + 1)).rebuild.param.kind := rfl
  exact childIds_of_rebuild_eq hkind rfl

theorem untouched_place (m : Mount) (par : Option ParamId) (hid : id ≠ m.param.id) :
    Untouched s (s.place m par) id := by
  refine ⟨?_, ?_⟩
  · simp only [place, get?_setParent, get?_setEditor, if_neg hid.symm]
    rfl
  · simp only [place, parent?_setParent, parent?_setEditor, if_neg hid.symm]
    rfl

theorem flatMap_ids_panelMounts (p : Param) :
    (panelMounts p).flatMap (·.param.ids) = Forest.ids p.panel := by
  rw [Forest.ids, Forest.nodes, List.map_flatMap, funext Param.map_id_nodes, Param.panel,
    List.flatMap_map]

/-- A mount of ids that have no editors makes all editors that it asks for. -/
theorem founded_mountWithin (hheight : m.param.height ≤ bound) (hnodup : m.param.ids.Nodup)
    (hnew : ∀ id ∈ m.param.ids, s.get? id = none) :
    Founded [m] par s (mountWithin bound par s m) := by
  induction bound generalizing s m par with
  | zero => exact absurd hheight (Nat.not_le_of_gt (height_pos _))
  | succ bound ih =>
    have hids := flatMap_ids_panelMounts m.param
    -- The ids in the panel stand below the definition, so that its own id is not among them.
    have hsub : ∀ id ∈ Forest.ids m.param.panel, id ∈ m.param.descendantIds := fun id hid =>
      m.param.panel_ids_sublist.subset hid
    have hout : m.param.id ∉ Forest.ids m.param.panel := fun hid =>
      (List.nodup_cons.mp hnodup).1 (hsub _ hid)
    have hpanel : Founded (panelMounts m.param) (some m.param.id) (s.place m par)
        ((panelMounts m.param).foldl (mountWithin bound (some m.param.id)) (s.place m par)) := by
      refine founded_foldl (fun c hc s' hs' => ih ?_ ?_ hs') ?_ fun id hid => ?_
      · have hlt := Param.height_lt_of_mem_panel (List.mem_map_of_mem hc)
        omega
      · exact Param.nodup_ids_of_mem_panel hnodup (List.mem_map_of_mem hc)
      · rw [hids]
        exact Param.nodup_ids_panel hnodup
      · rw [hids] at hid
        rw [(untouched_place m par fun he => hout (he ▸ hid)).1]
        exact hnew id (List.mem_cons_of_mem _ (hsub id hid))
    rw [mountWithin_of_new (hnew _ (Param.id_mem_ids _))]
    refine ⟨fun z hz => ?_, fun b hb m' g hreaches => ?_⟩
    · have hz' : z ∉ m.param.ids := by simpa using hz
      have hlast := hpanel.untouched z fun hmem =>
        hz' (List.mem_cons_of_mem _ (hsub z (hids ▸ hmem)))
      have hfirst : Untouched s (s.place m par) z :=
        untouched_place m par fun he => hz' (he ▸ Param.id_mem_ids _)
      exact ⟨hlast.1.trans hfirst.1, hlast.2.trans hfirst.2⟩
    · obtain rfl := List.mem_singleton.mp hb
      rcases Mount.reaches_iff.mp hreaches with ⟨rfl, rfl⟩ | ⟨c, hc, hreaches⟩
      · have hlast := hpanel.untouched m'.param.id (hids ▸ hout)
        exact (hasMount_place s m' g).of_eq hlast.1 hlast.2
      · exact hpanel.hasMount c hc m' g hreaches

/-! ### Settled trees -/

/-- The editors of a sound tree show what painting them would show, and are labelled as the panels
that show them ask for. -/
structure IsSettled (t : EditorTree) : Prop where
  /-- Editors are bound to the nodes of the forest. -/
  isFaithful : t.IsFaithful
  /-- Panels show editors, and editors stand in panels. -/
  isSound : t.IsSound
  /-- Painting an editor changes nothing. -/
  painted : ∀ id e, t.get? id = some e → e.rebuild = e
  /-- The topmost editors are labelled. -/
  labelled_top : ∀ id ∈ t.roots, ∀ e, t.get? id = some e → e.labelled = true
  /-- The others are labelled as the panel asks for. -/
  labelled : ∀ g e, t.get? g = some e → ∀ m ∈ panelMounts e.param,
    ∀ e', t.get? m.param.id = some e' → e'.labelled = m.labelled

namespace IsSettled

theorem isFresh (h : t.IsSettled) : t.IsFresh := by
  intro id e he c
  rw [← childIds_of_rebuild_eq (h.isFaithful.kind_eq id e he) (h.painted id e he)]
  simp [Shows, he]

/-- A mount of a definition of the skeleton that the editor of its id is bound to asks for what is
there. -/
theorem hasMount (h : t.IsSettled) (he : t.get? p.id = some e)
    (hskeleton : e.param.skeleton = p.skeleton)
    (hreaches : Mount.Reaches ⟨p, e.labelled⟩ (t.parent? p.id) m g) : t.HasMount m g := by
  have hf := h.isFaithful
  have hthere : ∀ {m g}, Mount.Reaches ⟨p, e.labelled⟩ (t.parent? p.id) m g →
      (∃ e, t.get? m.param.id = some e ∧ e.param.skeleton = m.param.skeleton) ∧
        t.parent? m.param.id = g := fun hm =>
    h.isFresh.exists_of_placed hf h.isSound.toIsLinked ⟨e, he, hskeleton⟩ hm.placed
  obtain ⟨⟨x, hx, hxskeleton⟩, hparent⟩ := hthere hreaches
  have hkind : x.param.kind = m.param.kind := Param.kind_eq_of_skeleton_eq hxskeleton
  refine ⟨⟨x, hx, (hf.kind_eq _ x hx).trans hkind, hkind, ?_, ?_⟩, hparent⟩
  · cases hreaches with
    | self => rw [Option.some.inj (he.symm.trans hx)]
    | @panel b _ _ hb hm =>
      obtain ⟨⟨y, hy, hyskeleton⟩, -⟩ := hthere hb
      obtain ⟨m₀, hm₀, hm₀skeleton, hlabelled⟩ :=
        Param.exists_panelMount_of_skeleton_eq hyskeleton.symm hm
      rw [← hlabelled]
      exact h.labelled _ y hy m₀ hm₀ x (Param.id_eq_of_skeleton_eq hm₀skeleton ▸ hx)
  · rw [childIds_of_rebuild_eq (hf.kind_eq _ x hx) (h.painted _ x hx)]
    exact Param.map_id_panel_of_skeleton_eq hxskeleton

/-- So it moves nothing. -/
theorem unmoved_mount (h : t.IsSettled) (he : t.get? p.id = some e)
    (hskeleton : e.param.skeleton = p.skeleton) :
    Unmoved t (t.mount ⟨p, e.labelled⟩ (t.parent? p.id)) :=
  unmoved_mountWithin (fun _ _ hm => h.hasMount he hskeleton hm) _

end IsSettled

/-! ### Loading -/

/-- Editors are painted when they are mounted. -/
theorem allows_painted :
    Allows (fun _ e => e.rebuild = e) (fun _ _ => True) (fun _ => True) :=
  ⟨fun _ _ _ _ => ⟨trivial, trivial⟩, fun _ _ _ => rfl, fun _ _ _ _ _ => rfl⟩

/-- No panel is open that has not been opened. -/
theorem allows_closed :
    Allows (fun _ e => e.expanded = false) (fun _ _ => True) (fun _ => True) :=
  ⟨fun _ _ _ _ => ⟨trivial, trivial⟩, fun _ _ _ => rfl, fun _ _ _ he _ => he⟩

theorem isSettled_clear (t : EditorTree) : t.clear.IsSettled := by
  obtain ⟨hf, hs, -⟩ := isFaithful_clear t
  have hnone : ∀ id, t.clear.get? id = none := by
    intro id
    simp [clear, empty, get?]
  refine ⟨hf, hs, fun id e he => ?_, fun id hid => absurd hid List.not_mem_nil,
    fun g e he => ?_⟩
  · exact absurd ((hnone id).symm.trans he) (by simp)
  · exact absurd ((hnone g).symm.trans he) (by simp)

/-- What the panel of a group of new ids asks for, the mount of its definition comes to mount. -/
theorem IsFaithful.reaches_of_mem_panelMounts (hf : t.IsFaithful) (hp : p.ids.Nodup)
    (hnew : ∀ id ∈ p.ids, id ∉ t.forest.ids) (hid : id ∈ p.ids)
    (he : (t.addRoot p).get? id = some e) (hm : m ∈ panelMounts e.param) :
    Mount.Reaches ⟨p, true⟩ none m (some e.param.id) := by
  have hmount := hf.mounting_addRoot hp hnew
  have hplaced : ¬ Unplaced [p] none id := by
    intro hout
    have hsame := (hmount.of_ne_none hout (by simp [he])).1.symm.trans he
    have hthere : t.get? id = some e := hsame
    rw [hf.get?_eq_none_of_new hnew hid] at hthere
    cases hthere
  obtain ⟨q, k, hq, rfl⟩ := not_unplaced_singleton.mp hplaced
  obtain ⟨⟨x, hx, hparam, -⟩, -⟩ := hmount.painted hq (by simp [he])
  obtain rfl := Option.some.inj (hx.symm.trans he)
  obtain ⟨mq, hmq, hmqparam⟩ := hq.exists_reaches true
  have hpanel : m ∈ panelMounts mq.param := by rwa [hmqparam, ← hparam]
  have hreaches := hmq.panel hpanel
  rwa [hmqparam, ← hparam] at hreaches

/-- A definition of new ids becomes a new tree, with labels as its panels ask for. -/
theorem IsSettled.addRoot (h : t.IsSettled) (hp : p.ids.Nodup)
    (hnew : ∀ id ∈ p.ids, id ∉ t.forest.ids) : (t.addRoot p).IsSettled := by
  have hf := h.isFaithful
  obtain ⟨hf₁, hs₁, hforest⟩ := hf.addRoot h.isSound hp hnew
  have hmount := hf.mounting_addRoot hp hnew
  have hunused : ∀ id ∈ p.ids, t.get? id = none := fun id hid =>
    hf.get?_eq_none_of_new hnew hid
  have hfounded : Founded [⟨p, true⟩] none { t with roots := t.roots ++ [p.id] } (t.addRoot p) :=
    founded_mountWithin (Nat.le_refl _) hp hunused
  have hold : ∀ z ∉ p.ids, (t.addRoot p).get? z = t.get? z := fun z hz =>
    (hfounded.untouched z (by simpa using hz)).1
  have hpainted : (t.addRoot p).Satisfies (fun _ e => e.rebuild = e) (fun _ _ => True) :=
    Satisfies.addRoot ⟨h.painted, fun _ _ _ => trivial⟩ allows_painted trivial
  refine ⟨hf₁, hs₁, hpainted.editor, ?top, ?others⟩
  case top =>
    intro r hr e he
    have hroots : (t.addRoot p).roots = t.roots ++ [p.id] := hmount.roots_eq
    rw [hroots] at hr
    rcases List.mem_append.mp hr with hr | hr
    · have hrp : r ∉ p.ids := fun hrp => (hf.topmost r hr).1 (hunused r hrp)
      exact h.labelled_top r hr e ((hold r hrp).symm.trans he)
    · obtain rfl := List.mem_singleton.mp hr
      obtain ⟨x, hx, -, -, hlabelled, -⟩ :=
        (hfounded.hasMount ⟨p, true⟩ (List.mem_singleton_self _) _ _ .self).editor
      rw [← Option.some.inj (hx.symm.trans he)]
      exact hlabelled
  case others =>
    intro g e he m hm e' he'
    by_cases hg : g ∈ p.ids
    · -- A group of the definition: the mount has made what its panel asks for.
      have hreaches := hf.reaches_of_mem_panelMounts hp hnew hg he hm
      obtain ⟨y, hy, -, -, hlabelled, -⟩ :=
        (hfounded.hasMount ⟨p, true⟩ (List.mem_singleton_self _) m _ hreaches).editor
      rw [← Option.some.inj (hy.symm.trans he')]
      exact hlabelled
    · -- A group that was there has nothing of the definition in its panel.
      have heold := (hold g hg).symm.trans he
      have hmem : m.param.id ∈ t.forest.ids := by
        have hbelow := Param.id_mem_descendantIds_of_mem_panel
          (List.mem_map_of_mem (f := Mount.param) hm)
        exact Forest.mem_ids_trans (hf.bound g e heold).1 (List.mem_cons_of_mem _ hbelow)
      have hmp : m.param.id ∉ p.ids := fun hmp => hnew _ hmp hmem
      exact h.labelled g e heold m hm e' ((hold _ hmp).symm.trans he')

theorem IsSettled.foldl_addRoot {ps : List Param} (h : t.IsSettled)
    (hps : (t.forest ++ ps : Forest).ids.Nodup) : (ps.foldl EditorTree.addRoot t).IsSettled := by
  induction ps generalizing t with
  | nil => exact h
  | cons p rest ih =>
    obtain ⟨hp, hnew⟩ := Forest.nodup_ids_append_cons hps
    refine ih (h.addRoot hp hnew) ?_
    rwa [(h.isFaithful.addRoot h.isSound hp hnew).2.2, List.append_assoc]

/-- The tree of a list of definitions without repeated ids is settled. -/
theorem isSettled_load {ps : List Param} (t : EditorTree) (hps : (Forest.ids ps).Nodup) :
    (t.load ps).IsSettled := by
  refine (isSettled_clear t).foldl_addRoot ?_
  rwa [(isFaithful_clear t).2.2]

/-! ### Trees of one forest -/

/-- The topmost ids are those of the trees of the forest. -/
theorem IsFaithful.roots_eq (hf : t.IsFaithful) : t.roots = t.forest.map Param.id := by
  have hsome : ∀ r ∈ t.roots, ((t.get? r).map (·.param)).map Param.id = some r := by
    intro r hr
    obtain ⟨e, he⟩ := Option.ne_none_iff_exists'.mp (hf.topmost r hr).1
    simp [he, (hf.bound r e he).2]
  rw [forest, List.map_filterMap, List.filterMap_congr hsome, List.filterMap_some]

/-- Settled trees of one forest have editors for the same ids, bound and labelled alike. -/
theorem IsSettled.exists_alike (h : t.IsSettled) (h' : t'.IsSettled)
    (hforest : t'.forest = t.forest) (he : t.get? id = some e) :
    ∃ e', t'.get? id = some e' ∧ e'.param = e.param ∧ e'.labelled = e.labelled := by
  have hf := h.isFaithful
  have hf' := h'.isFaithful
  have hparam : ∀ {id e e'}, t.get? id = some e → t'.get? id = some e' → e'.param = e.param := by
    intro id e e' he he'
    obtain ⟨hnode, hid⟩ := hf.bound id e he
    obtain ⟨hnode', hid'⟩ := hf'.bound id e' he'
    exact Forest.eq_of_id_eq hf.nodup_ids (hforest ▸ hnode') hnode (hid'.trans hid.symm)
  have hlive : t.get? id ≠ none := by simp [he]
  obtain ⟨l, hclimbs⟩ := hf.exists_climbs h.isSound.held hlive
  -- By the way up: a topmost id is that of a tree, any other is asked for by the panel above it.
  induction hclimbs generalizing e with
  | @top id hparent =>
    have hroot : id ∈ t.roots := by
      rcases h.isSound.held id hlive with hroot | ⟨g, hg, -⟩
      · exact hroot
      · exact absurd (hparent.symm.trans hg) (by simp)
    have hroot' : id ∈ t'.roots := by
      rwa [hf'.roots_eq, hforest, ← hf.roots_eq]
    obtain ⟨e', he'⟩ := Option.ne_none_iff_exists'.mp (hf'.topmost id hroot').1
    refine ⟨e', he', hparam he he', ?_⟩
    rw [h.labelled_top id hroot e he, h'.labelled_top id hroot' e' he']
  | @up id g rest hparent _ ih =>
    have hshows := hf.shows_of_parent? h.isSound.held hparent
    obtain ⟨b, hb⟩ := Option.ne_none_iff_exists'.mp hshows.get?_ne_none
    obtain ⟨b', hb', hbparam, -⟩ := ih hb hshows.get?_ne_none
    have hpanel := (h.isFresh g b hb id).mp hshows
    have hshows' : t'.Shows g id := by
      rw [h'.isFresh g b' hb' id, hbparam]
      exact hpanel
    obtain ⟨e', he'⟩ := Option.ne_none_iff_exists'.mp (h'.isSound.shown g id hshows').1
    obtain ⟨q, hq, rfl⟩ := List.mem_map.mp hpanel
    obtain ⟨m, hm, rfl⟩ := List.mem_map.mp hq
    refine ⟨e', he', hparam he he', ?_⟩
    rw [h.labelled g b hb m hm e he, h'.labelled g b' hb' m (hbparam ▸ hm) e' he']

end EditorTree

end LiveTuner
