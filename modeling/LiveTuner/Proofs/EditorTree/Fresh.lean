import LiveTuner.Proofs.EditorTree.Change
import LiveTuner.Proofs.Param.Skeleton

/-!
# Trees that show what they are bound to

An editor is painted when it is mounted, and the definition it is bound to may change afterwards
without it being painted anew. As long as only values and settings change, its panel goes on showing
what the definition wants in it. In such a tree a redefinition that keeps the skeleton finds every
editor where it wants it, so it moves nothing and takes no editor away.

## Main definitions

* `EditorTree.IsFresh` — every panel shows what the bound definition wants in it

## Main results

* `EditorTree.isFresh_load` — a tree is loaded fresh
* `EditorTree.IsFresh.reconcile` — it stays so under redefinitions that keep the skeleton
* `EditorTree.IsFresh.of_sameShown` — and under edits
-/

namespace LiveTuner

/-- A value that fits changes no skeleton. -/
theorem Param.skeleton_setValue? {p q : Param} {val : Value} (h : p.setValue? val = some q) :
    q.skeleton = p.skeleton := by
  cases p with
  | leaf i name control =>
    obtain ⟨c, hc, rfl⟩ := Option.map_eq_some_iff.mp h
    exact skeleton_leaf_of_kind_eq (Editor.revalued_of_setValue? hc).kind_eq i name
  | group i name params hidden => exact absurd h (by simp [setValue?])

namespace EditorTree

variable {ns : List Param} {t t₁ t₂ : EditorTree} {p q : Param} {par g : Option ParamId}

/-- Every panel shows what the bound definition wants in it. -/
def IsFresh (t : EditorTree) : Prop :=
  ∀ id e, t.get? id = some e → ∀ c, t.Shows id c ↔ c ∈ e.param.panel.map Param.id

/-- A mount leaves only editors that it has painted, or that it has not touched. -/
theorem Mounting.isFresh (h : Mounting ns [p] par t t₁) (ht : t.IsFresh) : t₁.IsFresh := by
  intro z e he c
  have hlive : t₁.get? z ≠ none := by simp [he]
  by_cases hz : Unplaced [p] par z
  · have hsame := (h.of_ne_none hz hlive).1
    rw [← ht z e (hsame.symm.trans he) c]
    exact ⟨fun hc => hc.of_get?_eq hsame.symm, fun hc => hc.of_get?_eq hsame⟩
  · obtain ⟨q, g, hq, rfl⟩ := not_unplaced_singleton.mp hz
    have hpainted := h.painted hq hlive
    obtain ⟨⟨e', he', hparam, -⟩, -⟩ := id hpainted
    obtain rfl := Option.some.inj (he.symm.trans he')
    rw [hparam]
    exact hpainted.shows_iff

/-- What is shown stays fresh as long as the skeletons behind it stay. -/
theorem IsFresh.of_sameShown (ht : t.IsFresh) (h : SameShown t t₁)
    (hskeleton : ∀ id e e₁, t.get? id = some e → t₁.get? id = some e₁ →
      e.param.skeleton = e₁.param.skeleton) : t₁.IsFresh := by
  intro id e₁ he₁ c
  have hlive : t.get? id ≠ none := by
    rw [ne_eq, ← h.get?_eq_none_iff, he₁]
    exact Option.some_ne_none e₁
  obtain ⟨e, he⟩ := Option.ne_none_iff_exists'.mp hlive
  rw [h.shows_iff, ht id e he c, Param.map_id_panel_of_skeleton_eq (hskeleton id e e₁ he he₁)]

/-- Editors of the same id in faithful trees of the same skeleton are bound to the same skeleton. -/
theorem IsFaithful.skeleton_eq (hf : t.IsFaithful) (hf₁ : t₁.IsFaithful)
    (h : t₁.forest.skeleton = t.forest.skeleton) {id : ParamId} {e e₁ : Editor}
    (he : t.get? id = some e) (he₁ : t₁.get? id = some e₁) :
    e.param.skeleton = e₁.param.skeleton := by
  obtain ⟨hnode, hid⟩ := hf.bound id e he
  obtain ⟨hnode₁, hid₁⟩ := hf₁.bound id e₁ he₁
  exact Forest.skeleton_eq_of_id_eq h.symm hf.nodup_ids hnode hnode₁ (hid.trans hid₁.symm)

/-! ### Redefinitions -/

/-- A definition of the skeleton that an editor is bound to wants every editor below it where it
stands. -/
theorem IsFresh.exists_of_placed (ht : t.IsFresh) (hf : t.IsFaithful) (hl : t.IsLinked)
    (hself : ∃ e, t.get? p.id = some e ∧ e.param.skeleton = p.skeleton)
    (hq : p.Placed (t.parent? p.id) q g) :
    (∃ e, t.get? q.id = some e ∧ e.param.skeleton = q.skeleton) ∧ t.parent? q.id = g := by
  induction hq with
  | self => exact ⟨hself, rfl⟩
  | @panel b q g hb hq ih =>
    obtain ⟨⟨e, he, hskeleton⟩, -⟩ := ih
    obtain ⟨hnode, -⟩ := hf.bound b.id e he
    -- The editor of `b` is bound to a definition that shows a node of the skeleton of `q`.
    have hmem : q.skeleton ∈ e.param.panel.map Param.skeleton := by
      rw [← Param.panel_skeleton, hskeleton, Param.panel_skeleton]
      exact List.mem_map_of_mem hq
    obtain ⟨q₀, hq₀, hq₀skeleton⟩ := List.mem_map.mp hmem
    have hq₀id : q₀.id = q.id := by
      rw [← q₀.id_skeleton, hq₀skeleton, q.id_skeleton]
    have hshows : t.Shows b.id q.id :=
      (ht b.id e he q.id).mpr (hq₀id ▸ List.mem_map_of_mem hq₀)
    obtain ⟨hlive, hparent⟩ := hl.shown b.id q.id hshows
    obtain ⟨e', he'⟩ := Option.ne_none_iff_exists'.mp hlive
    obtain ⟨hnode', hid'⟩ := hf.bound q.id e' he'
    have hq₀node := Forest.mem_nodes_trans hnode (Param.mem_nodes_of_mem_panel hq₀)
    obtain rfl := Forest.eq_of_id_eq hf.nodup_ids hq₀node hnode' (hq₀id.trans hid'.symm)
    exact ⟨⟨e', he', hq₀skeleton⟩, hparent⟩

/-- Mounting such a definition gives no id an editor that had none, nor one of another skeleton. -/
theorem IsFresh.exists_of_mounted (ht : t.IsFresh) (hf : t.IsFaithful) (hl : t.IsLinked)
    (hself : ∃ e, t.get? p.id = some e ∧ e.param.skeleton = p.skeleton)
    (hmount : Mounting ns [p] (t.parent? p.id) t t₁) {z : ParamId} {e₁ : Editor}
    (he₁ : t₁.get? z = some e₁) :
    ∃ e, t.get? z = some e ∧ e.param.skeleton = e₁.param.skeleton := by
  have hz₁ : t₁.get? z ≠ none := by simp [he₁]
  by_cases hz : Unplaced [p] (t.parent? p.id) z
  · exact ⟨e₁, (hmount.of_ne_none hz hz₁).1.symm.trans he₁, rfl⟩
  · obtain ⟨q, g, hq, rfl⟩ := not_unplaced_singleton.mp hz
    obtain ⟨⟨e', he', hparam, -⟩, -⟩ := hmount.painted hq hz₁
    obtain rfl := Option.some.inj (he₁.symm.trans he')
    rw [hparam]
    exact (ht.exists_of_placed hf hl hself hq).1

/-- What a redefinition of a skeleton that the forest has mounts is of the skeleton that the editor
of its id is bound to. -/
theorem Reconciled.exists_skeleton_eq {m : Mount} (h : Reconciled t p m t₂) (hf : t.IsFaithful)
    (hp : p.skeleton ∈ t.forest.skeleton.nodes) :
    ∃ e, t.get? m.param.id = some e ∧ e.labelled = m.labelled ∧
      e.param.skeleton = m.param.skeleton := by
  obtain ⟨e, he, hlabelled⟩ := h.editor
  obtain ⟨hnode, hid⟩ := hf.bound m.param.id e he
  have hsame : t.forest.skeleton = (t.forest.define m.param).skeleton := by
    rw [h.define_eq, Forest.skeleton_define hf.nodup_ids hp]
  have hm : m.param ∈ (t.forest.define m.param).nodes :=
    (Forest.mem_nodes_define hf.nodup_ids).mpr (Or.inl (Param.self_mem_nodes _))
  exact ⟨e, he, hlabelled, Forest.skeleton_eq_of_id_eq hsame hf.nodup_ids hnode hm hid⟩

/-- A redefinition of a skeleton that the forest has is taken and takes no editor away. The tree
stays sound and fresh. -/
theorem IsFresh.reconcile (ht : t.IsFresh) (hf : t.IsFaithful) (hs : t.IsSound)
    (hp : p.skeleton ∈ t.forest.skeleton.nodes) :
    ∃ t₂, t.reconcile p = some (.ok t₂) ∧ t₂.IsFaithful ∧ t₂.IsSound ∧ t₂.IsFresh ∧
      t₂.forest = t.forest.define p ∧ ∀ id, t₂.get? id ≠ none → t.get? id ≠ none := by
  have hkeeps := Forest.keeps_of_mem_skeleton hf.nodup_ids hp
  obtain ⟨m, t₂, h⟩ := hf.reconcile hs.held hkeeps (Forest.mem_ids_of_mem_skeleton hp)
  have hsame : t₂.forest.skeleton = t.forest.skeleton := by
    rw [h.forest_eq, Forest.skeleton_define hf.nodup_ids hp]
  have hself : ∃ e, t.get? m.param.id = some e ∧ e.param.skeleton = m.param.skeleton := by
    obtain ⟨e, he, -, hskeleton⟩ := h.exists_skeleton_eq hf hp
    exact ⟨e, he, hskeleton⟩
  have hmoves : ¬ t.Moves m.param := by
    intro ⟨q, g, o, hq, ho, hne⟩
    have hparent := (ht.exists_of_placed hf hs.toIsLinked hself hq).2
    exact hne (Option.some.inj (ho.symm.trans hparent))
  refine ⟨t₂, h.reconcile_eq, h.isFaithful, (h.isSound_iff_not_moves hf hs).mpr hmoves, ?_,
    h.forest_eq, fun z hz => ?_⟩
  · refine (h.mounting.isFresh ht).of_sameShown h.sameShown fun z e₁ e₂ he₁ he₂ => ?_
    obtain ⟨e, he, hskeleton⟩ := ht.exists_of_mounted hf hs.toIsLinked hself h.mounting he₁
    rw [← hskeleton]
    exact hf.skeleton_eq h.isFaithful hsame he he₂
  · rw [ne_eq, h.sameShown.get?_eq_none_iff] at hz
    obtain ⟨e₁, he₁⟩ := Option.ne_none_iff_exists'.mp hz
    obtain ⟨e, he, -⟩ := ht.exists_of_mounted hf hs.toIsLinked hself h.mounting he₁
    simp [he]

/-! ### Loading -/

theorem isFresh_clear (t : EditorTree) : t.clear.IsFresh := by
  intro id e he
  simp [clear, empty, get?] at he

theorem isFresh_foldl_addRoot {ps : List Param} (ht : t.IsFresh) (hf : t.IsFaithful)
    (hs : t.IsSound) (hps : (t.forest ++ ps : Forest).ids.Nodup) :
    (ps.foldl EditorTree.addRoot t).IsFresh := by
  induction ps generalizing t with
  | nil => exact ht
  | cons p rest ih =>
    obtain ⟨hp, hnew⟩ := Forest.nodup_ids_append_cons hps
    obtain ⟨hf₁, hs₁, hforest⟩ := hf.addRoot hs hp hnew
    refine ih ((hf.mounting_addRoot hp hnew).isFresh ht) hf₁ hs₁ ?_
    rwa [hforest, List.append_assoc]

/-- The tree of a list of definitions without repeated ids is fresh. -/
theorem isFresh_load {ps : List Param} (t : EditorTree) (hps : (Forest.ids ps).Nodup) :
    (t.load ps).IsFresh := by
  obtain ⟨hf, hs, hforest⟩ := isFaithful_clear t
  exact isFresh_foldl_addRoot (isFresh_clear t) hf hs (by rwa [hforest])

end EditorTree

end LiveTuner
