import LiveTuner.Proofs.EditorTree.Fresh
import LiveTuner.Proofs.Param.Value
import LiveTuner.Proofs.Registry

/-!
# Registry and editors in step

The registry and the editors hold the same definitions, and neither reads from the other. They are
two forests of one skeleton, and wherever a parameter that is no group has an editor, the two agree
about it. A parameter without an editor may differ: a value pushed for it reaches the registry only.

Definitions, pushed values and interactions keep the two in step. The two forests take each of them
by the same rule, a definition taking the place of the tree at its id.

## Main definitions

* `Forest.AgreesOn` — two forests of one skeleton agree about the parameters of some ids
* `InStep` — the registry agrees with the editors about everything that has an editor

## Main results

* `Forest.AgreesOn.define` — forests that agree take in definitions that agree
* `InStep.load`, `InStep.redefine` — definitions keep registry and editors in step
* `InStep.setValue?`, `InStep.bindValue`, `InStep.interact` — and so do values
-/

namespace LiveTuner

theorem Param.exchange_of_kind_ne_group {p r : Param} (hne : p.id ≠ r.id)
    (h : (p.exchange r).kind ≠ .group) : p.exchange r = p := by
  cases p with
  | leaf i name control => exact exchange_leaf_of_ne hne
  | group i name params hidden =>
    rw [id_group] at hne
    rw [exchange_group_of_ne hne] at h
    exact absurd rfl h

theorem Param.Agrees.id_eq {p q : Param} (h : p.Agrees q) : p.id = q.id := by
  cases h
  rfl

theorem Param.Agrees.exchange_eq {p q r : Param} (h : p.Agrees q) (hne : p.id ≠ r.id) :
    p.exchange r = p := by
  cases h
  exact exchange_leaf_of_ne hne

theorem Param.Agrees.nodes_eq {p q : Param} (h : p.Agrees q) : q.nodes = [q] := by
  cases h
  rfl

theorem Param.agrees_self {p : Param} (h : p.kind ≠ .group) : p.Agrees p := by
  cases p with
  | leaf i name control => exact agrees_refl i name control
  | group i name params hidden => exact absurd rfl h

theorem Param.Agrees.skeleton_eq {p q : Param} (h : p.Agrees q) : p.skeleton = q.skeleton := by
  obtain ⟨i, name, hsettings, -⟩ := h
  exact skeleton_leaf_of_kind_eq (Control.kind_eq_of_settings_eq hsettings) i name

theorem Param.kind_ne_group_of_setValue? {p q : Param} {val : Value}
    (h : p.setValue? val = some q) : p.kind ≠ .group := by
  cases p with
  | leaf i name control => exact control.kind_ne_group
  | group i name params hidden => exact absurd h (by simp [setValue?])

/-! ### Forests -/

/-- Two forests have one skeleton, and for every parameter of the second that is no group and whose
id is one of `ids`, the first has one that agrees with it. -/
structure Forest.AgreesOn (ids : ParamId → Prop) (f f' : Forest) : Prop where
  /-- The skeletons are the same. -/
  skeleton_eq : f.skeleton = f'.skeleton
  /-- A parameter that is no group agrees with one of the first forest. -/
  exists_agrees : ∀ x ∈ f'.nodes, ids x.id → x.kind ≠ .group → ∃ q ∈ f.nodes, q.Agrees x

namespace Forest

variable {ids ids' : ParamId → Prop} {f f' : Forest} {p p' : Param}

/-- A parameter that agrees with one outside of a tree stays when a definition takes the place of
that tree. -/
theorem AgreesOn.exists_agrees_define {y : Param} (h : AgreesOn ids f f') (hf : f.ids.Nodup)
    (hp : p.skeleton ∈ f.skeleton.nodes) (hy : y ∈ f'.nodes) (hout : y.id ∉ p.ids)
    (hid : ids y.id) (hkind : y.kind ≠ .group) : ∃ q ∈ (f.define p).nodes, q.Agrees y := by
  obtain ⟨q, hq, hagrees⟩ := h.exists_agrees y hy hid hkind
  rw [← hagrees.id_eq] at hout
  have hne : q.id ≠ p.id := by
    intro he
    exact hout (he ▸ Param.id_mem_ids p)
  rw [← idsAt_of_mem_skeleton hf hp] at hout
  exact ⟨q, (mem_nodes_define hf).mpr (Or.inr ⟨q, hq, hout, hagrees.exchange_eq hne⟩), hagrees⟩

/-- Forests that agree take in definitions of a skeleton they have and that agree. -/
theorem AgreesOn.define (h : AgreesOn ids f f') (hf : f.ids.Nodup) (hf' : f'.ids.Nodup)
    (hids : ∀ i, ids' i → ids i) (hp : p.skeleton ∈ f.skeleton.nodes)
    (hskeleton : p.skeleton = p'.skeleton)
    (hagrees : ∀ x ∈ p'.nodes, ids' x.id → x.kind ≠ .group → ∃ q ∈ p.nodes, q.Agrees x) :
    AgreesOn ids' (f.define p) (f'.define p') := by
  have hp' : p'.skeleton ∈ f'.skeleton.nodes := hskeleton ▸ h.skeleton_eq ▸ hp
  refine ⟨?_, fun x hx hlive hkind => ?_⟩
  · rw [skeleton_define hf hp, skeleton_define hf' hp', h.skeleton_eq]
  · rcases (mem_nodes_define hf').mp hx with hx | ⟨y, hy, hout, rfl⟩
    · obtain ⟨q, hq, hqx⟩ := hagrees x hx hlive hkind
      exact ⟨q, (mem_nodes_define hf).mpr (Or.inl hq), hqx⟩
    · -- Outside of the tree, a parameter that is no group stays as it is.
      rw [idsAt_of_mem_skeleton hf' hp'] at hout
      have hne : y.id ≠ p'.id := by
        intro he
        exact hout (he ▸ Param.id_mem_ids p')
      rw [Param.exchange_id] at hlive
      have hstay := Param.exchange_of_kind_ne_group hne hkind
      rw [hstay] at hkind ⊢
      rw [← Param.ids_eq_of_skeleton_eq hskeleton] at hout
      exact h.exists_agrees_define hf hp hy hout (hids _ hlive) hkind

/-- What the first forest has for other ids does not matter. -/
theorem AgreesOn.define_left (h : AgreesOn ids f f') (hf : f.ids.Nodup)
    (hp : p.skeleton ∈ f.skeleton.nodes) (hleaf : p.children = []) (hid : ¬ ids p.id) :
    AgreesOn ids (f.define p) f' := by
  refine ⟨(skeleton_define hf hp).trans h.skeleton_eq, fun x hx hlive hkind => ?_⟩
  refine h.exists_agrees_define hf hp hx (fun hxp => ?_) hlive hkind
  rw [Param.ids_eq_cons, Param.descendantIds_eq, hleaf] at hxp
  exact hid (List.mem_singleton.mp hxp ▸ hlive)

end Forest

/-! ### Registry and editors -/

/-- The registry has an entry of the id and of the skeleton of a definition. -/
def Registry.HasSkeleton (r : Registry) (p : Param) : Prop :=
  ∃ q ∈ r.get? p.id, p.skeleton = q.skeleton

instance (r : Registry) (p : Param) : Decidable (r.HasSkeleton p) := by
  unfold Registry.HasSkeleton
  infer_instance

/-- The registry agrees with the editors about everything that has an editor, and the editors are
in order. -/
structure InStep (r : Registry) (t : EditorTree) : Prop where
  /-- The editors are bound to the nodes of their forest. -/
  isFaithful : t.IsFaithful
  /-- Panels show editors, and editors stand in panels. -/
  isSound : t.IsSound
  /-- Panels show what the definitions want in them. -/
  isFresh : t.IsFresh
  /-- The forest of the registry agrees with that of the editors. -/
  agreesOn : ∃ f, r.Mirrors f ∧ f.AgreesOn (fun id => t.get? id ≠ none) t.forest

variable {r r' : Registry} {f : Forest} {t t₂ : EditorTree} {p p' q q' : Param} {id : ParamId}
  {val : Value} {e : Editor}

theorem Registry.Mirrors.hasSkeleton_iff (h : r.Mirrors f) :
    r.HasSkeleton p ↔ p.skeleton ∈ f.skeleton.nodes := by
  rw [Forest.mem_skeleton_nodes_iff]
  constructor
  · rintro ⟨q, hq, hskeleton⟩
    rw [h.get?_eq, Option.mem_def] at hq
    exact ⟨q, Forest.mem_nodes_of_node?_eq_some hq, hskeleton.symm⟩
  · rintro ⟨q, hq, hskeleton⟩
    exact ⟨q, Param.id_eq_of_skeleton_eq hskeleton ▸ h.get?_id hq, hskeleton.symm⟩

namespace InStep

/-- The entry of an editor that is no group's agrees with it. -/
theorem exists_agrees (h : InStep r t) (he : t.get? id = some e)
    (hkind : e.param.kind ≠ .group) : ∃ q, r.get? id = some q ∧ q.Agrees e.param := by
  obtain ⟨f, hm, hagrees⟩ := h.agreesOn
  obtain ⟨hnode, hid⟩ := h.isFaithful.bound id e he
  obtain ⟨q, hq, hqe⟩ := hagrees.exists_agrees e.param hnode (by simp [hid, he]) hkind
  exact ⟨q, hid ▸ hqe.id_eq ▸ hm.get?_id hq, hqe⟩

/-- Definitions without repeated ids are loaded in step. -/
theorem load {ps : List Param} (hps : (Forest.ids ps).Nodup) (t : EditorTree) :
    InStep (Registry.empty.flatten ps) (t.load ps) := by
  obtain ⟨hf, hs, hforest⟩ := EditorTree.isSound_load t hps
  refine ⟨hf, hs, EditorTree.isFresh_load t hps, ps, Registry.mirrors_empty.flatten_append hps, ?_⟩
  rw [hforest]
  exact ⟨rfl, fun x hx _ hkind => ⟨x, hx, Param.agrees_self hkind⟩⟩

/-- A redefinition that keeps the skeleton is taken by both. -/
theorem redefine (h : InStep r t) (hp : r.HasSkeleton p) :
    ∃ t₂, t.reconcile p = some (.ok t₂) ∧ InStep (r.flattenOne p) t₂ ∧
      ∀ p', r.HasSkeleton p' → (r.flattenOne p).HasSkeleton p' := by
  obtain ⟨f, hm, hagrees⟩ := h.agreesOn
  rw [hm.hasSkeleton_iff] at hp
  have hfits := (Forest.keeps_of_mem_skeleton hm.nodup_ids hp).fits hm.nodup_ids
  have hm₂ := hm.flattenOne hfits
  obtain ⟨t₂, hreconcile, hf₂, hs₂, hfresh₂, hforest, hlive⟩ :=
    h.isFresh.reconcile h.isFaithful h.isSound (hagrees.skeleton_eq ▸ hp)
  refine ⟨t₂, hreconcile, ⟨hf₂, hs₂, hfresh₂, f.define p, hm₂, ?_⟩, fun p' hp' => ?_⟩
  · rw [hforest]
    exact hagrees.define hm.nodup_ids h.isFaithful.nodup_ids hlive hp rfl fun x hx _ hkind =>
      ⟨x, hx, Param.agrees_self hkind⟩
  · rw [hm.hasSkeleton_iff] at hp'
    rwa [hm₂.hasSkeleton_iff, Forest.skeleton_define hm.nodup_ids hp]

/-- A value that comes to an entry and to its editor in forms that agree keeps the two in step. -/
theorem revalue (h : InStep r t) (hq : r.get? id = some q) (hset : q.setValue? val = some q')
    (hagrees : q'.Agrees p') (hshown : t.SameShown t₂) (hf₂ : t₂.IsFaithful)
    (hforest : t₂.forest = t.forest.define p') :
    ∃ r', r.setValue? id val = some r' ∧ InStep r' t₂ := by
  obtain ⟨f, hm, hf⟩ := h.agreesOn
  -- For the registry, a value is an entry that comes in anew; for the editors, a definition.
  have hnode : f.node? id = some q := (hm.get?_eq id).symm.trans hq
  have hid := Forest.id_eq_of_node?_eq_some hnode
  have hq' : q'.skeleton ∈ f.skeleton.nodes := Forest.mem_skeleton_nodes_iff.mpr
    ⟨q, Forest.mem_nodes_of_node?_eq_some hnode, (Param.skeleton_setValue? hset).symm⟩
  have hp' : p'.skeleton ∈ t.forest.skeleton.nodes :=
    hagrees.skeleton_eq ▸ hf.skeleton_eq ▸ hq'
  have hfits := Forest.fits_of_children_eq_nil (f := f) (Forest.setValue?_eq_some hset).2
  refine ⟨r.flattenOne q', Registry.setValue?_eq_flattenOne hq hset hid, hf₂,
    hshown.isSound h.isSound, h.isFresh.of_sameShown hshown fun i e e₂ he he₂ => ?_,
    f.define q', hm.flattenOne hfits, ?_⟩
  · refine h.isFaithful.skeleton_eq hf₂ ?_ he he₂
    rw [hforest, Forest.skeleton_define h.isFaithful.nodup_ids hp']
  · rw [hforest]
    refine hf.define hm.nodup_ids h.isFaithful.nodup_ids
      (fun i hi => mt (hshown.get?_eq_none_iff i).mpr hi) hq' hagrees.skeleton_eq
      fun x hx _ _ => ⟨q', Param.self_mem_nodes q', ?_⟩
    rw [hagrees.nodes_eq, List.mem_singleton] at hx
    exact hx ▸ hagrees

/-- A value that is pushed for an id without an editor concerns the registry only. -/
theorem setValue? (h : InStep r t) (hdead : t.get? id = none)
    (hset : r.setValue? id val = some r') :
    InStep r' t := by
  obtain ⟨f, hm, hf⟩ := h.agreesOn
  obtain ⟨q, hq, hset'⟩ := Option.bind_eq_some_iff.mp hset
  obtain ⟨q', hq', -⟩ := Option.bind_eq_some_iff.mp hset'
  have hnode : f.node? id = some q := (hm.get?_eq id).symm.trans hq
  have hid := Forest.id_eq_of_node?_eq_some hnode
  obtain ⟨hid', hleaf⟩ := Forest.setValue?_eq_some hq'
  obtain rfl := Option.some.inj ((Registry.setValue?_eq_flattenOne hq hq' hid).symm.trans hset)
  refine ⟨h.isFaithful, h.isSound, h.isFresh, f.define q',
    hm.flattenOne (Forest.fits_of_children_eq_nil hleaf), hf.define_left hm.nodup_ids ?_ hleaf ?_⟩
  · exact Forest.mem_skeleton_nodes_iff.mpr
      ⟨q, Forest.mem_nodes_of_node?_eq_some hnode, (Param.skeleton_setValue? hq').symm⟩
  · rw [hid', hid]
    exact not_not_intro hdead

/-- A value that is pushed for an editor is refused by it, or taken by both. -/
theorem bindValue (h : InStep r t) (id : ParamId) (val : Value) :
    (∃ problem, t.bindValue id val = some (.error problem)) ∨
    ∃ t₂ r', t.bindValue id val = some (.ok t₂) ∧ r.setValue? id val = some r' ∧ InStep r' t₂ := by
  rcases h.isFaithful.bindValue h.isSound.held id val with hrefused |
    ⟨e, p, t₂, he, hset, heq, hshown, hf₂, hforest⟩
  · exact Or.inl hrefused
  · obtain ⟨q, hq, hqe⟩ := h.exists_agrees he (Param.kind_ne_group_of_setValue? hset)
    obtain ⟨q', hset', hagrees⟩ := hqe.setValue? hset
    obtain ⟨r', hr', hstep⟩ := h.revalue hq hset' hagrees hshown hf₂ hforest
    exact Or.inr ⟨t₂, r', heq, hr', hstep⟩

/-- An interaction is refused, or it changes what is shown only, or its value is taken by both. -/
theorem interact (h : InStep r t) (id : ParamId) (interaction : Interaction) :
    (∃ problem, t.interact id interaction = some (.error problem)) ∨
    (∃ t₂, t.interact id interaction = some (.ok (t₂, none)) ∧ InStep r t₂) ∨
    ∃ t₂ val r', t.interact id interaction = some (.ok (t₂, some val)) ∧
      r.setValue? id val = some r' ∧ InStep r' t₂ := by
  rcases h.isFaithful.interact h.isSound.held id interaction with hrefused |
    ⟨t₂, heq, hshown, hf₂, hforest⟩ |
    ⟨e, name, c, c', t₂, he, hparam, hc, heq, hshown, hf₂, hforest⟩
  · exact Or.inl hrefused
  · obtain ⟨f, hm, hf⟩ := h.agreesOn
    have hskeleton : t₂.forest.skeleton = t.forest.skeleton := by rw [hforest]
    refine Or.inr (Or.inl ⟨t₂, heq, hf₂, hshown.isSound h.isSound,
      h.isFresh.of_sameShown hshown fun i e e₂ he he₂ =>
        h.isFaithful.skeleton_eq hf₂ hskeleton he he₂, f, hm, ?_⟩)
    rw [hforest]
    exact ⟨hf.skeleton_eq, fun x hx hlive => hf.exists_agrees x hx
      (mt (hshown.get?_eq_none_iff x.id).mpr hlive)⟩
  · have hkind : e.param.kind ≠ .group := hparam ▸ c.kind_ne_group
    obtain ⟨q, hq, hqe⟩ := h.exists_agrees he hkind
    rw [hparam] at hqe
    obtain ⟨q', hset', hagrees⟩ := hqe.revalued hc
    obtain ⟨r', hr', hstep⟩ := h.revalue hq hset' hagrees hshown hf₂ hforest
    exact Or.inr (Or.inr ⟨t₂, c'.value, r', heq, hr', hstep⟩)

end InStep

end LiveTuner
