import LiveTuner.Proofs.Editor.Edit
import LiveTuner.Proofs.EditorTree.Sound

/-!
# Changes to a sound tree

A redefinition of any id in the forest comes to a mount: of the definition itself if its id has an
editor, else of the definition of an editor that holds the id, with the copy exchanged. In either
case the forest afterwards is the one in which the definition has taken its place. Pushed values and
interactions reach an editor of a parameter that is no group, and never move anything.

## Main definitions

* `EditorTree.mountFor` — what a redefinition mounts
* `EditorTree.Reconciled` — a redefinition is taken

## Main results

* `EditorTree.IsFaithful.reconcile` — a redefinition of a known id is taken
* `EditorTree.Reconciled.isSound_iff_not_moves` — it keeps a sound tree sound exactly if it moves
  nothing
* `EditorTree.IsFaithful.interact`, `EditorTree.IsFaithful.bindValue` — edits keep what is shown
* `EditorTree.isSound_load` — the tree of a list of definitions is sound
-/

namespace LiveTuner

open Relation

namespace EditorTree

variable {t t₁ t₂ : EditorTree} {p q : Param} {id host : ParamId} {e : Editor} {m : Mount}

/-! ### Hosts -/

theorem mem_keys_iff : id ∈ t.editors.keys ↔ t.get? id ≠ none := by
  rw [Std.ExtTreeMap.mem_keys, Std.ExtTreeMap.mem_iff_isSome_getElem?, Option.isSome_iff_ne_none]
  rfl

theorem mem_hosts_iff {order : List ParamId} :
    host ∈ t.hosts id order ↔
      host ∈ order ∧ ∃ e, t.get? host = some e ∧ id ∈ e.param.descendantIds := by
  rw [hosts, List.mem_filter, and_congr_right_iff]
  intro _
  cases t.get? host with
  | none => simp
  | some e => simp [Param.hasDescendant_iff]

/-- Out of some candidates, the deepest is found. -/
theorem foldl_deeper (best : ParamId × Nat) (candidates : List (ParamId × Nat)) :
    ∃ x ∈ best :: candidates, candidates.foldl deeper (some best) = some x ∧
      ∀ c ∈ best :: candidates, c.2 ≤ x.2 := by
  induction candidates generalizing best with
  | nil => exact ⟨best, by simp, rfl, by simp⟩
  | cons c rest ih =>
    rw [List.foldl_cons, deeper]
    by_cases hdeeper : c.2 < best.2
    · rw [if_pos hdeeper]
      obtain ⟨x, hmem, hx, hmax⟩ := ih best
      refine ⟨x, by grind, hx, fun y hy => ?_⟩
      have hbest := hmax best List.mem_cons_self
      grind
    · rw [if_neg hdeeper]
      obtain ⟨x, hmem, hx, hmax⟩ := ih c
      refine ⟨x, List.mem_cons_of_mem _ hmem, hx, fun y hy => ?_⟩
      have hc := hmax c List.mem_cons_self
      grind

/-- If every one of some ids has a depth, the candidates are the ids with their depths. -/
theorem exists_candidates {ids : List ParamId} (h : ∀ host ∈ ids, ∃ d, t.depth host = some d) :
    ∃ candidates, ids.mapM (fun host => (t.depth host).map (host, ·)) = some candidates ∧
      candidates.map Prod.fst = ids ∧ ∀ c ∈ candidates, t.depth c.1 = some c.2 := by
  induction ids with
  | nil => exact ⟨[], rfl, rfl, by simp⟩
  | cons host rest ih =>
    obtain ⟨d, hd⟩ := h host List.mem_cons_self
    obtain ⟨candidates, hcandidates, hfst, hdepths⟩ :=
      ih fun x hx => h x (List.mem_cons_of_mem _ hx)
    refine ⟨(host, d) :: candidates, ?_, by simp [hfst], List.forall_mem_cons.mpr ⟨hd, hdepths⟩⟩
    rw [List.mapM_cons, hcandidates, hd]
    rfl

/-- If every candidate has a depth, the walk to a host ends: at none without candidates, else at one
of the deepest. -/
theorem nearestHostIn_cases {order : List ParamId}
    (hdepth : ∀ host ∈ t.hosts id order, ∃ d, t.depth host = some d) :
    (t.hosts id order = [] ∧ t.nearestHostIn id order = some none) ∨
    ∃ host ∈ t.hosts id order, t.nearestHostIn id order = some (some host) ∧
      ∀ other ∈ t.hosts id order, ∃ d d', t.depth other = some d ∧ t.depth host = some d' ∧
        d ≤ d' := by
  obtain ⟨candidates, hcandidates, hfst, hdepths⟩ := exists_candidates hdepth
  rw [nearestHostIn, hcandidates, ← hfst]
  cases candidates with
  | nil => exact Or.inl ⟨rfl, rfl⟩
  | cons c rest =>
    obtain ⟨x, hmem, hx, hmax⟩ := foldl_deeper c rest
    have hx' : (c :: rest).foldl deeper none = some x := hx
    refine Or.inr ⟨x.1, List.mem_map_of_mem hmem, by simp [hx'], fun other hother => ?_⟩
    obtain ⟨y, hy, rfl⟩ := List.mem_map.mp hother
    exact ⟨y.2, x.2, hdepths y hy, hdepths x hmem, hmax y hy⟩

namespace IsFaithful

theorem exists_depth (hf : t.IsFaithful) (hh : t.IsHeld) (h : t.get? id ≠ none) :
    ∃ d, t.depth id = some d := by
  obtain ⟨l, hclimbs⟩ := hf.exists_climbs hh h
  exact ⟨l.length, by simp [depth, hclimbs.ancestors_eq]⟩

theorem exists_depth_of_mem_hosts (hf : t.IsFaithful) (hh : t.IsHeld) (id : ParamId) :
    ∀ host ∈ t.hosts id t.editors.keys, ∃ d, t.depth host = some d :=
  fun _ hhost => hf.exists_depth hh (mem_keys_iff.mp (mem_hosts_iff.mp hhost).1)

/-- An id in the forest without an editor has a host. -/
theorem nearestHost (hf : t.IsFaithful) (hh : t.IsHeld) (hmem : id ∈ t.forest.ids)
    (hdead : t.get? id = none) :
    ∃ host e, t.nearestHost id = some (some host) ∧ t.get? host = some e ∧
      id ∈ e.param.descendantIds := by
  rcases nearestHostIn_cases (hf.exists_depth_of_mem_hosts hh id) with
    ⟨hnone, -⟩ | ⟨host, hhost, hnearest, -⟩
  · -- The tree that holds the id has an editor, which is a candidate.
    obtain ⟨q, hq, hid⟩ := Forest.mem_ids_iff.mp hmem
    obtain ⟨r, hr, hqr⟩ := List.mem_flatMap.mp hq
    obtain ⟨root, hroot, hbound⟩ := List.mem_filterMap.mp hr
    obtain ⟨e, he, hparam⟩ := Option.map_eq_some_iff.mp hbound
    have hne : id ≠ e.param.id := by
      intro hid'
      rw [(hf.bound root e he).2] at hid'
      simp [hid', he] at hdead
    have hbelow : id ∈ e.param.descendantIds := by
      have hin : id ∈ e.param.ids := hparam ▸ hid ▸ Param.mem_ids_of_mem_nodes hqr
      exact (List.mem_cons.mp hin).resolve_left hne
    have hcandidate : root ∈ t.hosts id t.editors.keys :=
      mem_hosts_iff.mpr ⟨mem_keys_iff.mpr (by simp [he]), e, he, hbelow⟩
    rw [hnone] at hcandidate
    exact absurd hcandidate List.not_mem_nil
  · obtain ⟨-, e, he, hbelow⟩ := mem_hosts_iff.mp hhost
    exact ⟨host, e, hnearest, he, hbelow⟩

/-- An id that the forest does not know has no host. -/
theorem nearestHost_of_notMem (hf : t.IsFaithful) (hh : t.IsHeld) (hmem : id ∉ t.forest.ids) :
    t.nearestHost id = some none := by
  rcases nearestHostIn_cases (hf.exists_depth_of_mem_hosts hh id) with
    ⟨-, hnearest⟩ | ⟨host, hhost, -⟩
  · exact hnearest
  · obtain ⟨-, e, he, hbelow⟩ := mem_hosts_iff.mp hhost
    exact absurd (Forest.mem_ids_trans (hf.bound host e he).1 (List.mem_cons_of_mem _ hbelow)) hmem

end IsFaithful

/-! ### Redefinitions -/

/-- What a redefinition mounts: the definition in place of the editor of its id, or the definition
of the deepest editor that holds the id, with the copy exchanged. -/
def mountFor (t : EditorTree) (p : Param) : Walk (Option Mount) :=
  match t.get? p.id with
  | some e => some (some ⟨p, e.labelled⟩)
  | none => (t.nearestHost p.id).map fun host =>
    host.bind fun host => (t.get? host).map fun e => ⟨e.param.replaceDescendant p, e.labelled⟩

theorem reconcile_eq (t : EditorTree) (p : Param) :
    t.reconcile p = (t.mountFor p).bind fun
      | some m => (t.remount m.param m.labelled).map .ok
      | none => some (.error (.unknownParameter p.id)) := by
  rw [reconcile, mountFor]
  cases t.get? p.id with
  | some e => rfl
  | none =>
    cases t.nearestHost p.id with
    | none => rfl
    | some host =>
      cases host with
      | none => rfl
      | some host =>
        cases hhost : t.get? host with
        | none => simp [hhost]
        | some e => simp [hhost]

namespace IsFaithful

/-- What is mounted for a known id has an editor, of the same label, keeps to the forest, and takes
the place of the definition there. -/
theorem mountFor (hf : t.IsFaithful) (hh : t.IsHeld) (hp : t.forest.Keeps p)
    (hmem : p.id ∈ t.forest.ids) :
    ∃ m e, t.mountFor p = some (some m) ∧ t.get? m.param.id = some e ∧ e.labelled = m.labelled ∧
      t.forest.Keeps m.param ∧ t.forest.define m.param = t.forest.define p := by
  rw [EditorTree.mountFor]
  cases hself : t.get? p.id with
  | some e => exact ⟨⟨p, e.labelled⟩, e, rfl, hself, rfl, hp, rfl⟩
  | none =>
    obtain ⟨host, e, hnearest, he, hbelow⟩ := hf.nearestHost hh hmem hself
    obtain ⟨hnode, hid⟩ := hf.bound host e he
    have hin : p.id ∈ e.param.ids := List.mem_cons_of_mem _ hbelow
    -- The host has an editor and the id has none.
    have hne : e.param.id ≠ p.id := by
      intro hid'
      rw [← hid', hid, he] at hself
      cases hself
    have hexchange : e.param.replaceDescendant p = e.param.exchange p :=
      Param.replaceDescendant_eq (Forest.nodup_ids_of_mem_nodes hf.nodup_ids hnode) hne
    refine ⟨⟨e.param.exchange p, e.labelled⟩, e, by simp [hnearest, he, hexchange], ?_, rfl,
      hp.exchange hf.nodup_ids hnode hin, Forest.define_exchange hf.nodup_ids hnode hin⟩
    rw [Param.exchange_id, hid, he]

/-- After a mount in place of an editor, only what is placed has editors in the tree at the id. -/
theorem notMem_idsAt_of_unplaced {ns : List Param} {par : Option ParamId} {z : ParamId}
    (hf : t.IsFaithful) (hh : t.IsHeld) (hlive : t.get? p.id ≠ none)
    (hmount : Mounting ns [p] par t t₁) (hz : Unplaced [p] par z) (hstill : t₁.get? z ≠ none) :
    z ∉ t.forest.idsAt p.id := by
  intro hzp
  rcases reflTransGen_iff_eq_or_transGen.mp ((Forest.mem_idsAt_iff hf.nodup_ids).mp hzp).2 with
    hid | hbelow
  · exact unplaced_singleton.mp hz p _ .self hid
  · exact hstill (hmount.get?_eq_none_of_below hf hh hlive hbelow hz)

/-- A mount of a definition that keeps to the forest leaves the groups above to take it over. -/
theorem pending_of_mounting (hf : t.IsFaithful) (hh : t.IsHeld) (hp : t.forest.Keeps p)
    (hlive : t.get? p.id ≠ none)
    (hmount : Mounting (t.forest.nodes ++ p.nodes) [p] (t.parent? p.id) t t₁) :
    Pending t t₁ p := by
  have hns : p.nodes ⊆ t.forest.nodes ++ p.nodes := List.subset_append_right _ _
  have horderly := hmount.isOrderly (hf.isOrderly (List.subset_append_left t.forest.nodes p.nodes))
    fun q hq => List.mem_singleton.mp hq ▸ hns
  have hmem := hf.mem_ids hlive
  have hfits := hp.fits hf.nodup_ids
  have haway := fun z => hf.notMem_idsAt_of_unplaced (z := z) hh hlive hmount
  obtain ⟨⟨e, he, hparam, -⟩, hparent⟩ := hmount.tops p (List.mem_singleton_self p)
  refine ⟨hmount.roots_eq, ⟨e, he, hparam⟩, hparent, ?outside, ?bound, horderly.kind_eq,
    horderly.isTidy, ?stands⟩
  case outside =>
    intro z hz hzlive
    refine hmount.outside_singleton fun hzq => hz ?_
    refine (Forest.mem_idsAt_iff hf.nodup_ids).mpr ⟨hmem, ?_⟩
    rcases reflTransGen_iff_eq_or_transGen.mp hzq with rfl | hzq
    · exact .refl
    · exact (hp.transGen_under hzq (hf.mem_ids hzlive)).to_reflTransGen
  case bound =>
    intro z x hx
    refine (hmount.bound_or hx).imp_right fun ⟨hz, hsame⟩ => ⟨haway z hz ?_, hsame⟩
    simp [hx]
  case stands =>
    intro g c hgc
    rcases hmount.shows_or hp.1 hgc with ⟨hg, hshows⟩ | hcg | ⟨u, hcu, hug, hup, hu⟩
    · exact Or.inl ⟨haway g hg hgc.get?_ne_none, hshows⟩
    · exact Or.inr (Or.inl hcg)
    · -- The member in between would have its editor away from the tree, where the id is known.
      refine Or.inr (Or.inr ⟨u, hcu, hug, ?_⟩)
      by_contra hstill
      have hulive : t.get? u ≠ none := (hmount.of_ne_none hu hstill).1 ▸ hstill
      exact haway u hu hstill (hfits.mem_idsAt hf.nodup_ids hmem hup (hf.mem_ids hulive))

/-- A definition that keeps to the forest is mounted in place of the editor of its id, and the
groups above take it over. -/
theorem remount (hf : t.IsFaithful) (hh : t.IsHeld) (hp : t.forest.Keeps p)
    (hlive : t.get? p.id ≠ none) (labelled : Bool) :
    ∃ t₂, Mounting (t.forest.nodes ++ p.nodes) [p] (t.parent? p.id) t
        (t.mount ⟨p, labelled⟩ (t.parent? p.id)) ∧
      SameShown (t.mount ⟨p, labelled⟩ (t.parent? p.id)) t₂ ∧
      t.remount p labelled = some t₂ ∧ t₂.IsFaithful ∧ t₂.forest = t.forest.define p := by
  have horderly := hf.isOrderly (List.subset_append_left t.forest.nodes p.nodes)
  have hmount : Mounting (t.forest.nodes ++ p.nodes) [p] (t.parent? p.id) t
      (t.mount ⟨p, labelled⟩ (t.parent? p.id)) :=
    mounting_mount (hp.isTreeLike hf.nodup_ids) hp.1 (List.subset_append_right _ _) horderly
  have hpending := hf.pending_of_mounting hh hp hlive hmount
  obtain ⟨t₂, hsync, hshown, hfaithful, hforest⟩ :=
    hf.sync hh (hp.fits hf.nodup_ids) hlive hpending
  exact ⟨t₂, hmount, hshown, hsync, hfaithful, hforest⟩

end IsFaithful

/-- A redefinition `p` is taken: `m` is mounted in place of an editor, and the groups above take it
over, which leaves the tree `t₂`. -/
structure Reconciled (t : EditorTree) (p : Param) (m : Mount) (t₂ : EditorTree) : Prop where
  /-- The definition is taken. -/
  reconcile_eq : t.reconcile p = some (.ok t₂)
  /-- For it, `m` is mounted. -/
  mountFor_eq : t.mountFor p = some (some m)
  /-- Then the groups above take that over. -/
  remount_eq : t.remount m.param m.labelled = some t₂
  /-- There is an editor for the mount, labelled as before. -/
  editor : ∃ e, t.get? m.param.id = some e ∧ e.labelled = m.labelled
  /-- What is mounted keeps to the forest. -/
  keeps : t.forest.Keeps m.param
  /-- It takes the place of the definition there. -/
  define_eq : t.forest.define m.param = t.forest.define p
  /-- The mount is one. -/
  mounting : Mounting (t.forest.nodes ++ m.param.nodes) [m.param] (t.parent? m.param.id) t
    (t.mount m (t.parent? m.param.id))
  /-- What is shown does not change any more. -/
  sameShown : SameShown (t.mount m (t.parent? m.param.id)) t₂
  /-- The tree is faithful. -/
  isFaithful : t₂.IsFaithful
  /-- The definition has taken its place in the forest. -/
  forest_eq : t₂.forest = t.forest.define p

namespace Reconciled

theorem live (h : Reconciled t p m t₂) : t.get? m.param.id ≠ none := by
  obtain ⟨e, he, -⟩ := h.editor
  simp [he]

/-- Editors stand in panels as before. -/
theorem isHeld (h : Reconciled t p m t₂) (hf : t.IsFaithful) (hh : t.IsHeld) : t₂.IsHeld :=
  h.sameShown.isHeld_iff.mpr (h.mounting.isHeld (h.keeps.isTreeLike hf.nodup_ids)
    (hf.isOrderly (List.subset_append_left _ _)) hh (hh m.param.id h.live))

/-- A sound tree stays sound exactly if the mount moves nothing. -/
theorem isSound_iff_not_moves (h : Reconciled t p m t₂) (hf : t.IsFaithful) (hs : t.IsSound) :
    t₂.IsSound ↔ ¬ t.Moves m.param := by
  have hparents : ∀ id o, t.parent? id = some o → t.Shows o id := fun id o ho =>
    hf.shows_of_parent? hs.held ho
  constructor
  · rintro hs₂ ⟨q, g, o, hq, ho, hne⟩
    have hl₁ := h.sameShown.isLinked_iff.mp hs₂.toIsLinked
    exact hne (Option.some.inj (h.mounting.stays_of_isLinked h.keeps.1 hparents hl₁ hq ho)).symm
  · intro hmoves
    have hstay : ∀ q g o, m.param.Placed (t.parent? m.param.id) q g → t.parent? q.id = some o →
        g = some o := by
      intro q g o hq ho
      cases hq with
      | self => exact ho
      | @panel b q k hb hc =>
        by_contra hne
        refine hmoves ⟨q, b.id, o, hb.panel hc, ho, fun he => hne ?_⟩
        rw [he]
    have hl₁ := h.mounting.isLinked_of_stays (h.keeps.isTreeLike hf.nodup_ids) h.keeps.1
      (hf.isOrderly (List.subset_append_left _ _)) hs.toIsLinked (hs.held m.param.id h.live) hstay
    exact ⟨h.sameShown.isLinked_iff.mpr hl₁, fun id hid => (h.isFaithful.topmost id hid).1⟩

end Reconciled

namespace IsFaithful

/-- A redefinition of a known id is taken. -/
theorem reconcile (hf : t.IsFaithful) (hh : t.IsHeld) (hp : t.forest.Keeps p)
    (hmem : p.id ∈ t.forest.ids) : ∃ m t₂, Reconciled t p m t₂ := by
  obtain ⟨m, e, hm, he, hlabelled, hkeeps, hdefine⟩ := hf.mountFor hh hp hmem
  obtain ⟨t₂, hmount, hshown, hremount, hf₂, hforest⟩ :=
    hf.remount hh hkeeps (by simp [he]) m.labelled
  exact ⟨m, t₂, by simp [reconcile_eq, hm, hremount], hm, hremount, ⟨e, he, hlabelled⟩, hkeeps,
    hdefine, hmount, hshown, hf₂, hforest.trans hdefine⟩

/-- A redefinition of an id that the forest does not know is reported. -/
theorem reconcile_of_notMem (hf : t.IsFaithful) (hh : t.IsHeld) (hmem : p.id ∉ t.forest.ids) :
    t.mountFor p = some none ∧ t.reconcile p = some (.error (.unknownParameter p.id)) := by
  have hdead : t.get? p.id = none := by
    by_contra hlive
    exact hmem (hf.mem_ids hlive)
  have hm : t.mountFor p = some none := by
    simp [EditorTree.mountFor, hdead, hf.nearestHost_of_notMem hh hmem]
  exact ⟨hm, by simp [reconcile_eq, hm]⟩

end IsFaithful

/-! ### Edits -/

/-- A pushed value is refused, or the editor stores it and the groups above take it over. -/
theorem bindValue_cases (hkind : ∀ e, t.get? id = some e → e.kind = e.param.kind) (val : Value) :
    (∃ problem, t.bindValue id val = some (.error problem)) ∨
    ∃ e e', t.get? id = some e ∧ e.Stored e' ∧ e.param.setValue? val = some e'.param ∧
      t.bindValue id val = ((t.setEditor id e').syncAncestors id).map .ok := by
  rw [bindValue]
  cases he : t.get? id with
  | none => exact Or.inl ⟨_, rfl⟩
  | some e =>
    cases hbind : e.bindValue val with
    | error problem => exact Or.inl ⟨problem, by simp [hbind]⟩
    | ok e' =>
      obtain ⟨hstored, hset⟩ := Editor.bindValue_eq_ok (hkind e he) hbind
      exact Or.inr ⟨e, e', rfl, hstored, hset, by simp [hbind]⟩

/-- An interaction is refused, or it opens or closes a panel, or the editor stores a value, which is
told, and the groups above take it over. -/
theorem interact_cases (hkind : ∀ e, t.get? id = some e → e.kind = e.param.kind)
    (interaction : Interaction) :
    (∃ problem, t.interact id interaction = some (.error problem)) ∨
    (∃ e, t.get? id = some e ∧ Editor.hasPanel e.kind = true ∧ interaction = .toggle ∧
      t.interact id interaction =
        some (.ok (t.setEditor id (e.setExpanded (!e.expanded)), none))) ∨
    ∃ e e' i name c c', t.get? id = some e ∧ e.interact interaction = .ok (e', some c'.value) ∧
      e.Stored e' ∧ e.param = .leaf i name c ∧ e'.param = .leaf i name c' ∧ c.Revalued c' ∧
      t.interact id interaction =
        ((t.setEditor id e').syncAncestors id).map fun t => .ok (t, some c'.value) := by
  rw [interact]
  cases he : t.get? id with
  | none => exact Or.inl ⟨_, rfl⟩
  | some e =>
    cases hinteract : e.interact interaction with
    | error problem => exact Or.inl ⟨problem, by simp [hinteract]⟩
    | ok result =>
      obtain ⟨e', val?⟩ := result
      cases Editor.interact_eq_ok (hkind e he) hinteract with
      | toggled hpanel =>
        exact Or.inr (Or.inl ⟨e, rfl, hpanel, rfl, by simp [hinteract]⟩)
      | stored hstored hp hp' hc =>
        exact Or.inr (Or.inr ⟨e, e', _, _, _, _, rfl, hinteract, hstored, hp, hp', hc,
          by simp [hinteract]⟩)

theorem SameShown.trans (h : SameShown t t₁) (h' : SameShown t₁ t₂) : SameShown t t₂ where
  roots_eq := h'.roots_eq.trans h.roots_eq
  parent?_eq id := (h'.parent?_eq id).trans (h.parent?_eq id)
  get?_eq_none_iff id := (h'.get?_eq_none_iff id).trans (h.get?_eq_none_iff id)
  shows_iff g c := (h'.shows_iff g c).trans (h.shows_iff g c)

theorem SameShown.isSound (h : SameShown t t₁) (hs : t.IsSound) : t₁.IsSound := by
  refine ⟨h.isLinked_iff.mpr hs.toIsLinked, fun id hid => ?_⟩
  rw [ne_eq, h.get?_eq_none_iff]
  exact hs.topmost id (h.roots_eq ▸ hid)

/-- An editor of the same panel in place of another changes nothing that is shown. -/
theorem sameShown_setEditor {e' : Editor} (he : t.get? id = some e)
    (hchildIds : e'.view.childIds = e.view.childIds) : SameShown t (t.setEditor id e') := by
  refine ⟨rfl, fun _ => rfl, fun z => ?_, fun g c => ?_⟩
  · rw [get?_setEditor]
    split
    · next h => simp [← h, he]
    · rfl
  · rw [Shows, Shows, get?_setEditor]
    split
    · next h => simp [← h, he, hchildIds]
    · rfl

namespace IsFaithful

/-- An editor of the same panel that is bound to the same parameter changes nothing else either. -/
theorem setEditor {e' : Editor} (hf : t.IsFaithful) (he : t.get? id = some e)
    (hkind : e'.kind = e.kind) (hchildIds : e'.view.childIds = e.view.childIds)
    (hparam : e'.param = e.param) :
    (t.setEditor id e').IsFaithful ∧ (t.setEditor id e').forest = t.forest := by
  have hshown := sameShown_setEditor he hchildIds
  have hforest : (t.setEditor id e').forest = t.forest := by
    rw [forest, forest, roots_setEditor]
    refine List.filterMap_congr fun r _ => ?_
    rw [get?_setEditor]
    split
    · next h => simp [← h, he, hparam]
    · rfl
  -- Every editor has one before it that is bound to the same parameter.
  have hold : ∀ z x, (t.setEditor id e').get? z = some x →
      ∃ y, t.get? z = some y ∧ x.param = y.param ∧ x.kind = y.kind := by
    intro z x hx
    rw [get?_setEditor] at hx
    split at hx
    · next h =>
      obtain rfl := Option.some.inj hx
      exact ⟨e, h ▸ he, hparam, hkind⟩
    · exact ⟨x, hx, rfl, rfl⟩
  refine ⟨⟨?_, fun r hr => ?_, fun z x hx => ?_, fun z x hx => ?_, fun z hz => ?_,
    fun g c hgc => ?_⟩, hforest⟩
  · rw [hforest]
    exact hf.nodup_ids
  · rw [hshown.parent?_eq, ne_eq, hshown.get?_eq_none_iff]
    exact hf.topmost r hr
  · obtain ⟨y, hy, hxy, -⟩ := hold z x hx
    rw [hforest, hxy]
    exact hf.bound z y hy
  · obtain ⟨y, hy, hxy, hkind'⟩ := hold z x hx
    rw [hkind', hxy]
    exact hf.kind_eq z y hy
  · exact hf.isTidy z ((hshown.get?_eq_none_iff z).mp hz)
  · simp only [hforest, hshown.get?_eq_none_iff]
    exact hf.stands g c ((hshown.shows_iff g c).mp hgc)

/-- The editor of a parameter that is no group is bound to another control, and the groups above are
left to take it over. -/
theorem pending_setEditor {e' : Editor} {name : String} {c c' : Control} (hf : t.IsFaithful)
    (he : t.get? id = some e) (hkind : e'.kind = e.kind)
    (hchildIds : e'.view.childIds = e.view.childIds) (hparam : e.param = .leaf id name c)
    (hparam' : e'.param = .leaf id name c') (hc : c'.kind = c.kind) :
    Pending t (t.setEditor id e') (.leaf id name c') := by
  obtain ⟨hnode, hid⟩ := hf.bound id e he
  have hshown := sameShown_setEditor he hchildIds
  -- The tree at the id is the id alone, and away from it nothing changes.
  have hat : ∀ z, z ∈ t.forest.idsAt id ↔ z = id := by
    intro z
    rw [← hid, Forest.idsAt_id hf.nodup_ids hnode, hparam]
    exact List.mem_singleton
  have hother : ∀ z, z ∉ t.forest.idsAt id → (t.setEditor id e').get? z = t.get? z := by
    intro z hz
    rw [hat] at hz
    rw [get?_setEditor, if_neg fun h => hz h.symm]
  refine ⟨rfl, ⟨e', by simp, hparam'⟩, rfl, fun z hz _ => ⟨hother z hz, rfl⟩, ?bound, ?kind,
    fun z hz => hf.isTidy z ((hshown.get?_eq_none_iff z).mp hz), fun g d hgd => Or.inl ?stands⟩
  case bound =>
    intro z x hx
    by_cases hz : z ∈ t.forest.idsAt id
    · obtain rfl := (hat z).mp hz
      simp only [get?_setEditor, if_true, Option.some_inj] at hx
      rw [← hx, hparam']
      exact Or.inl ⟨List.mem_singleton_self _, rfl⟩
    · exact Or.inr ⟨hz, (hother z hz).symm.trans hx⟩
  case kind =>
    intro z x hx
    by_cases hz : z ∈ t.forest.idsAt id
    · obtain rfl := (hat z).mp hz
      simp only [get?_setEditor, if_true, Option.some_inj] at hx
      rw [← hx, hkind, hf.kind_eq z e he, hparam, hparam']
      exact hc.symm
    · exact hf.kind_eq z x ((hother z hz).symm.trans hx)
  case stands =>
    -- A parameter that is no group has nothing in its panel.
    have hold := (hshown.shows_iff g d).mp hgd
    refine ⟨fun hg => ?_, hold⟩
    obtain rfl := (hat g).mp hg
    obtain ⟨q, hq, hqid, hbelow⟩ := (Forest.transGen_under_iff hf.nodup_ids).mp (hf.below hold)
    obtain rfl := Forest.eq_of_id_eq hf.nodup_ids hq hnode (hqid.trans hid.symm)
    rw [hparam] at hbelow
    exact List.not_mem_nil hbelow

/-- A parameter that is no group gets another control, and the groups above take it over. -/
theorem sync_setEditor {e' : Editor} {i : ParamId} {name : String} {c c' : Control}
    (hf : t.IsFaithful) (hh : t.IsHeld) (he : t.get? id = some e) (hkind : e'.kind = e.kind)
    (hchildIds : e'.view.childIds = e.view.childIds) (hparam : e.param = .leaf i name c)
    (hparam' : e'.param = .leaf i name c') (hc : c'.kind = c.kind) :
    ∃ t₂, (t.setEditor id e').syncAncestors id = some t₂ ∧ SameShown t t₂ ∧ t₂.IsFaithful ∧
      t₂.forest = t.forest.define (.leaf i name c') := by
  obtain rfl : i = id := by
    rw [← (hf.bound id e he).2, hparam, Param.id_leaf]
  have hpending := hf.pending_setEditor he hkind hchildIds hparam hparam' hc
  have hfits : t.forest.Fits (.leaf i name c') := Forest.fits_of_children_eq_nil rfl
  obtain ⟨t₂, hsync, hshown, hf₂, hforest⟩ := hf.sync hh hfits (by simp [he]) hpending
  exact ⟨t₂, hsync, (sameShown_setEditor he hchildIds).trans hshown, hf₂, hforest⟩

/-- Opening or closing a panel changes nothing that is shown, and no definition. -/
theorem setExpanded (hf : t.IsFaithful) (he : t.get? id = some e) (expanded : Bool) :
    SameShown t (t.setEditor id (e.setExpanded expanded)) ∧
      (t.setEditor id (e.setExpanded expanded)).IsFaithful ∧
      (t.setEditor id (e.setExpanded expanded)).forest = t.forest :=
  ⟨sameShown_setEditor he (by simp), hf.setEditor he rfl (by simp) rfl⟩

/-- A pushed value is refused, or stored as the parameter stores it. -/
theorem bindValue (hf : t.IsFaithful) (hh : t.IsHeld) (id : ParamId) (val : Value) :
    (∃ problem, t.bindValue id val = some (.error problem)) ∨
    ∃ e p t₂, t.get? id = some e ∧ e.param.setValue? val = some p ∧
      t.bindValue id val = some (.ok t₂) ∧ SameShown t t₂ ∧ t₂.IsFaithful ∧
      t₂.forest = t.forest.define p := by
  rcases bindValue_cases (hf.kind_eq id) val with hrefused | ⟨e, e', he, hstored, hset, hbind⟩
  · exact Or.inl hrefused
  · obtain ⟨i, name, c, c', hparam, hparam', hc⟩ := hstored.exists_leaf
    obtain ⟨t₂, hsync, hshown, hf₂, hforest⟩ := hf.sync_setEditor hh he hstored.kind_eq
      hstored.childIds_eq hparam hparam' hc
    refine Or.inr ⟨e, _, t₂, he, hset, ?_, hshown, hf₂, hparam' ▸ hforest⟩
    rw [hbind, hsync, Option.map_some]

/-- An interaction is refused, or changes what is shown only, or gives a parameter another value and
tells it. -/
theorem interact (hf : t.IsFaithful) (hh : t.IsHeld) (id : ParamId) (interaction : Interaction) :
    (∃ problem, t.interact id interaction = some (.error problem)) ∨
    (∃ t₂, t.interact id interaction = some (.ok (t₂, none)) ∧ SameShown t t₂ ∧ t₂.IsFaithful ∧
      t₂.forest = t.forest) ∨
    ∃ e name c c' t₂, t.get? id = some e ∧ e.param = .leaf id name c ∧ c.Revalued c' ∧
      t.interact id interaction = some (.ok (t₂, some c'.value)) ∧ SameShown t t₂ ∧
      t₂.IsFaithful ∧ t₂.forest = t.forest.define (.leaf id name c') := by
  rcases interact_cases (hf.kind_eq id) interaction with hrefused |
    ⟨e, he, -, -, hinteract⟩ |
    ⟨e, e', i, name, c, c', he, -, hstored, hparam, hparam', hc, hinteract⟩
  · exact Or.inl hrefused
  · exact Or.inr (Or.inl ⟨_, hinteract, hf.setExpanded he _⟩)
  · obtain ⟨t₂, hsync, hshown, hf₂, hforest⟩ := hf.sync_setEditor hh he hstored.kind_eq
      hstored.childIds_eq hparam hparam' hc.kind_eq
    obtain rfl : i = id := by rw [← (hf.bound id e he).2, hparam, Param.id_leaf]
    refine Or.inr (Or.inr ⟨e, name, c, c', t₂, he, hparam, hc, ?_, hshown, hf₂, hforest⟩)
    rw [hinteract, hsync, Option.map_some]

end IsFaithful

/-! ### Loading -/

theorem isOrderly_setRoots {ns : List Param} (h : t.IsOrderly ns) (roots : List ParamId) :
    ({ t with roots } : EditorTree).IsOrderly ns := ⟨h.isTidy, h.kind_eq, h.below⟩

/-- A definition of new ids is mounted once its id has joined the topmost ones. -/
theorem IsFaithful.mounting_addRoot (hf : t.IsFaithful) (hp : p.ids.Nodup)
    (hnew : ∀ id ∈ p.ids, id ∉ t.forest.ids) :
    Mounting (t.forest.nodes ++ p.nodes) [p] none { t with roots := t.roots ++ [p.id] }
      (t.addRoot p) := by
  have hkeeps := Forest.keeps_of_notMem hp hnew
  have horderly := hf.isOrderly (List.subset_append_left t.forest.nodes p.nodes)
  exact mounting_mount (hkeeps.isTreeLike hf.nodup_ids) hp (List.subset_append_right _ _)
    (isOrderly_setRoots horderly _)

theorem IsFaithful.get?_eq_none_of_new (hf : t.IsFaithful) (hnew : ∀ id ∈ p.ids, id ∉ t.forest.ids)
    (hid : id ∈ p.ids) : t.get? id = none := by
  by_contra hlive
  exact hnew id hid (hf.mem_ids hlive)

/-- The topmost editors that were there have nothing to do with a definition of new ids. -/
theorem IsFaithful.not_below_new (hf : t.IsFaithful) (hnew : ∀ id ∈ p.ids, id ∉ t.forest.ids)
    (hid : id ∈ t.roots) : ¬ ReflTransGen (Under (t.forest.nodes ++ p.nodes)) id p.id := by
  have hidp : id ∉ p.ids := fun hidp => (hf.topmost id hid).1 (hf.get?_eq_none_of_new hnew hidp)
  intro hbelow
  rcases hbelow.cases_head with rfl | ⟨x, hx, -⟩
  · exact hidp (Param.id_mem_ids p)
  · rcases under_append.mp hx with hx | hx
    · exact hf.not_under hid hx
    · exact hidp (Forest.mem_ids_of_under_nodes hx)

/-- A mount of new ids takes nothing away and moves nothing. -/
theorem IsFaithful.isLinked_addRoot (hf : t.IsFaithful) (hl : t.IsLinked) (hp : p.ids.Nodup)
    (hnew : ∀ id ∈ p.ids, id ∉ t.forest.ids) : (t.addRoot p).IsLinked := by
  have hT := (Forest.keeps_of_notMem hp hnew).isTreeLike hf.nodup_ids
  have horderly := isOrderly_setRoots
    (hf.isOrderly (List.subset_append_left t.forest.nodes p.nodes)) (t.roots ++ [p.id])
  have hl' : ({ t with roots := t.roots ++ [p.id] } : EditorTree).IsLinked :=
    ⟨hl.shown, fun id hid => (hl.held id hid).imp_left (List.mem_append_left _)⟩
  refine (hf.mounting_addRoot hp hnew).isLinked_of_stays hT hp horderly hl' (Or.inl (by simp)) ?_
  intro q g o hq ho
  have hnone : t.parent? q.id = none := hf.isTidy _ (hf.get?_eq_none_of_new hnew hq.id_mem_ids)
  exact absurd (hnone.symm.trans ho) (by simp)

theorem IsFaithful.forest_addRoot (hf : t.IsFaithful) (hp : p.ids.Nodup)
    (hnew : ∀ id ∈ p.ids, id ∉ t.forest.ids) : (t.addRoot p).forest = t.forest ++ [p] := by
  have hmount := hf.mounting_addRoot hp hnew
  have hroots : (t.addRoot p).roots = t.roots ++ [p.id] := hmount.roots_eq
  obtain ⟨⟨e, he, hparam, -⟩, -⟩ := hmount.tops p (List.mem_singleton_self p)
  rw [forest, forest, hroots, List.filterMap_append]
  congr 1
  · refine List.filterMap_congr fun r hr => ?_
    have hsame : (t.addRoot p).get? r = t.get? r :=
      (hmount.outside_singleton (hf.not_below_new hnew hr)).1
    rw [hsame]
  · simp [he, hparam]

/-- A definition of new ids becomes a new tree. -/
theorem IsFaithful.addRoot (hf : t.IsFaithful) (hs : t.IsSound) (hp : p.ids.Nodup)
    (hnew : ∀ id ∈ p.ids, id ∉ t.forest.ids) :
    (t.addRoot p).IsFaithful ∧ (t.addRoot p).IsSound ∧ (t.addRoot p).forest = t.forest ++ [p] := by
  have hmount := hf.mounting_addRoot hp hnew
  have horderly := hmount.isOrderly (isOrderly_setRoots
    (hf.isOrderly (List.subset_append_left t.forest.nodes p.nodes)) _)
    fun q hq => List.mem_singleton.mp hq ▸ List.subset_append_right _ _
  have hl := hf.isLinked_addRoot hs.toIsLinked hp hnew
  have hforest := hf.forest_addRoot hp hnew
  have hold := fun r hr => hmount.outside_singleton (z := r) (hf.not_below_new hnew hr)
  generalize t.addRoot p = t₁ at hmount horderly hl hforest hold ⊢
  have hroots : t₁.roots = t.roots ++ [p.id] := hmount.roots_eq
  have hnodup : t₁.forest.ids.Nodup := by
    rw [hforest, Forest.ids_append, Forest.ids_singleton]
    refine List.nodup_append.mpr ⟨hf.nodup_ids, hp, ?_⟩
    rintro id hid id' hid' rfl
    exact hnew id hid' hid
  have htopmost : ∀ r ∈ t₁.roots, t₁.get? r ≠ none ∧ t₁.parent? r = none := by
    intro r hr
    rw [hroots] at hr
    rcases List.mem_append.mp hr with hr | hr
    · rw [(hold r hr).1, (hold r hr).2]
      exact hf.topmost r hr
    · obtain rfl := List.mem_singleton.mp hr
      obtain ⟨⟨e, he, -⟩, hparent⟩ := hmount.tops p (List.mem_singleton_self p)
      exact ⟨by simp [he], hparent⟩
  have hunder : ∀ {c g}, Under t₁.forest.nodes c g ↔
      Under t.forest.nodes c g ∨ Under p.nodes c g := by
    intro c g
    rw [hforest, Forest.nodes_append, Forest.nodes_singleton, under_append]
  have hgone : ∀ {z}, Unplaced [p] none z → t.get? z = none → t₁.get? z = none := by
    intro z hz hnone
    rcases hmount.others z hz with ⟨hsame, -⟩ | hnone'
    · exact hsame.trans hnone
    · exact hnone'
  refine ⟨⟨hnodup, htopmost, ?bound, horderly.kind_eq, hmount.isTidy, ?stands⟩,
    ⟨hl, fun r hr => (htopmost r hr).1⟩, hforest⟩
  case bound =>
    intro z x hx
    rw [hforest, Forest.nodes_append, Forest.nodes_singleton, List.mem_append]
    rcases hmount.bound_or hx with ⟨hnode, hid⟩ | ⟨-, hsame⟩
    · exact ⟨Or.inr hnode, hid⟩
    · exact (hf.bound z x hsame).imp_left Or.inl
  case stands =>
    intro g c hgc
    simp only [hunder]
    rcases hmount.shows_or hp hgc with ⟨-, hshows⟩ | hcg | ⟨u, hcu, hug, hup, hu⟩
    · rcases hf.stands g c hshows with hcg | ⟨u, hcu, hug, hnone⟩
      · exact Or.inl (Or.inl hcg)
      · refine Or.inr ⟨u, Or.inl hcu, Or.inl hug, hgone ?_ hnone⟩
        refine unplaced_singleton.mpr ?_
        rintro q k hq rfl
        exact hnew q.id hq.id_mem_ids (Forest.mem_ids_of_under hug).1
    · exact Or.inl (Or.inr hcg)
    · exact Or.inr ⟨u, Or.inr hcu, Or.inr hug, hgone hu (hf.get?_eq_none_of_new hnew hup)⟩

theorem isFaithful_clear (t : EditorTree) :
    t.clear.IsFaithful ∧ t.clear.IsSound ∧ t.clear.forest = [] := by
  have hnone : ∀ id, t.clear.get? id = none := by
    intro id
    simp [clear, empty, get?]
  have hshows : ∀ g c, ¬ t.clear.Shows g c := fun g c h => h.get?_ne_none (hnone g)
  have hforest : t.clear.forest = [] := rfl
  refine ⟨⟨List.nodup_nil, fun id hid => absurd hid List.not_mem_nil, fun id e he => ?_,
    fun id e he => ?_, fun id _ => ?_, fun g c h => absurd h (hshows g c)⟩,
    ⟨⟨fun g c h => absurd h (hshows g c), fun id h => absurd (hnone id) h⟩,
      fun id hid => absurd hid List.not_mem_nil⟩, hforest⟩
  · exact absurd ((hnone id).symm.trans he) (by simp)
  · exact absurd ((hnone id).symm.trans he) (by simp)
  · simp [clear, empty, parent?]

theorem load_of_isFaithful {ps : List Param} (hf : t.IsFaithful) (hs : t.IsSound)
    (hps : (t.forest ++ ps : Forest).ids.Nodup) :
    (ps.foldl EditorTree.addRoot t).IsFaithful ∧ (ps.foldl EditorTree.addRoot t).IsSound ∧
      (ps.foldl EditorTree.addRoot t).forest = t.forest ++ ps := by
  induction ps generalizing t with
  | nil => exact ⟨hf, hs, (List.append_nil _).symm⟩
  | cons p rest ih =>
    obtain ⟨hp, hnew⟩ := Forest.nodup_ids_append_cons hps
    obtain ⟨hf₁, hs₁, hforest⟩ := hf.addRoot hs hp hnew
    have hps₁ : ((t.addRoot p).forest ++ rest : Forest).ids.Nodup := by
      rwa [hforest, List.append_assoc]
    obtain ⟨hf₂, hs₂, hforest₂⟩ := ih hf₁ hs₁ hps₁
    refine ⟨hf₂, hs₂, ?_⟩
    rw [List.foldl_cons, hforest₂, hforest, List.append_assoc]
    rfl

/-- The tree of a list of definitions without repeated ids is sound, and faithful to them. -/
theorem isSound_load {ps : List Param} (t : EditorTree) (hps : Forest.ids ps |>.Nodup) :
    (t.load ps).IsFaithful ∧ (t.load ps).IsSound ∧ (t.load ps).forest = ps := by
  obtain ⟨hf, hs, hforest⟩ := isFaithful_clear t
  have hps' : (t.clear.forest ++ ps : Forest).ids.Nodup := by
    rwa [hforest]
  have h := load_of_isFaithful hf hs hps'
  rwa [hforest] at h

end EditorTree

end LiveTuner
