import LiveTuner.Proofs.EditorTree.Change
import LiveTuner.Proofs.EditorTree.Everywhere
import Mathlib.Order.WellFoundedSet

/-!
# Walks that end

The walk up from an id ends exactly if no group on the way is above itself. Nothing checks the ids
of definitions, which may stand in a definition several times and in several definitions. What keeps
the recorded groups from going round is not that ids are unique, but that no id is nested below
itself, along all definitions that have come in since the tree was loaded. Then every change to the
tree comes to an end, whatever else the definitions repeat.

## Main definitions

* `EditorTree.IsAcyclic` — no group is above itself
* `Param.NestsBy`, `EditorTree.IsNested` — a definition, and all that a tree holds, is nested along
  a relation

## Main results

* `EditorTree.isAcyclic_iff` — no group is above itself exactly if all walks up end
* `EditorTree.IsNested.isAcyclic` — nesting along a relation that does not go round
* `EditorTree.isNested_load`, `EditorTree.IsNested.reconcile`, `EditorTree.IsNested.bindValue`,
  `EditorTree.IsNested.interact` — every change returns, and keeps the nesting
-/

namespace LiveTuner

open Relation

/-! ### Nesting -/

namespace Param

variable {R R' : ParamId → ParamId → Prop} {p q r : Param} {c g i : ParamId} {name : String}
  {control : Control} {params params' : List (String × Param)}

/-- Every member in a parameter, at any depth, is related to its group. -/
def NestsBy (p : Param) (R : ParamId → ParamId → Prop) : Prop := ∀ c g, Under p.nodes c g → R c g

theorem NestsBy.mono (h : p.NestsBy R) (hR : ∀ c g, R c g → R' c g) : p.NestsBy R' :=
  fun c g hcg => hR c g (h c g hcg)

theorem nestsBy_leaf : (leaf i name control).NestsBy R := by
  rintro c g ⟨q, hq, -, m, hm, -⟩
  obtain rfl := List.mem_singleton.mp hq
  exact absurd hm List.not_mem_nil

/-- A panel shows parameters that nest along the same relation, below its group. -/
theorem NestsBy.of_mem_panel (h : p.NestsBy R) (hc : q ∈ p.panel) :
    q.NestsBy R ∧ TransGen R q.id p.id := by
  refine ⟨fun c g hcg => h c g (hcg.mono (nodes_subset_of_mem_panel (List.Subset.refl _) hc)), ?_⟩
  exact TransGen.mono h _ _ (transGen_under_of_mem_panel (List.Subset.refl _) hc)

theorem under_nodes_iff :
    Under p.nodes c g ↔ (p.id = g ∧ ∃ m ∈ p.children, m.id = c) ∨
      ∃ m ∈ p.children, Under m.nodes c g := by
  constructor
  · rintro ⟨q, hq, hid, hm⟩
    rcases mem_nodes_iff.mp hq with rfl | ⟨m, hmem, hq⟩
    · exact Or.inl ⟨hid, hm⟩
    · exact Or.inr ⟨m, hmem, q, hq, hid, hm⟩
  · rintro (⟨hid, hm⟩ | ⟨m, hmem, q, hq, hid, hm⟩)
    · exact ⟨p, self_mem_nodes p, hid, hm⟩
    · exact ⟨q, mem_nodes_iff.mpr (Or.inr ⟨m, hmem, hq⟩), hid, hm⟩

/-- Exchanging a copy brings in no other members than those of the copy. -/
theorem under_replaceDescendant? (h : p.replaceDescendant? r = some q) (hcg : Under q.nodes c g) :
    Under p.nodes c g ∨ Under r.nodes c g := by
  induction p using Param.induction generalizing q with
  | leaf i name control => simp [replaceDescendant?] at h
  | group i name params hidden ih =>
    obtain ⟨params', hparams, rfl⟩ := Option.map_eq_some_iff.mp h
    obtain ⟨hids, hmembers⟩ := members_of_replaceAmong? hparams
    rcases under_nodes_iff.mp hcg with ⟨hg, m, hm, hc⟩ | ⟨m, hm, hcg⟩
    · -- The members of the group itself have kept their ids.
      have hmem : c ∈ params.map (·.2.id) := by
        rw [← hids, ← hc]
        obtain ⟨x, hx, rfl⟩ := List.mem_map.mp hm
        exact List.mem_map_of_mem hx
      obtain ⟨x, hx, hc⟩ := List.mem_map.mp hmem
      exact Or.inl (under_nodes_iff.mpr (Or.inl ⟨hg, x.2, List.mem_map_of_mem hx, hc⟩))
    · rcases hmembers m hm with hm | rfl | ⟨x, hx, hm⟩
      · exact Or.inl (under_nodes_iff.mpr (Or.inr ⟨m, hm, hcg⟩))
      · exact Or.inr hcg
      · exact (ih x hx hm hcg).imp_left fun hcg => under_nodes_iff.mpr (Or.inr ⟨x, hx, hcg⟩)

theorem NestsBy.replaceDescendant (hp : p.NestsBy R) (hr : r.NestsBy R) :
    (p.replaceDescendant r).NestsBy R := by
  intro c g hcg
  rw [Param.replaceDescendant] at hcg
  cases hq : p.replaceDescendant? r with
  | none => exact hp c g (by simpa [hq] using hcg)
  | some q =>
    rw [hq, Option.getD_some] at hcg
    exact (under_replaceDescendant? hq hcg).elim (hp c g) (hr c g)

end Param

namespace EditorTree

variable {R R' : ParamId → ParamId → Prop} {t : EditorTree} {p : Param} {id c g : ParamId}
  {l : List ParamId} {e e' : Editor} {val : Value}

/-! ### Groups that are above themselves -/

/-- A group is recorded above an id. -/
def Link (t : EditorTree) (c g : ParamId) : Prop := t.parent? c = some g

/-- No group is above itself. -/
def IsAcyclic (t : EditorTree) : Prop := ∀ id, ¬ TransGen t.Link id id

/-- On a way up that ends are all groups above. -/
theorem Climbs.mem_of_transGen (h : t.Climbs c l) (hcg : TransGen t.Link c g) : g ∈ l := by
  induction h with
  | top hnone =>
    obtain ⟨x, hx, -⟩ := TransGen.head'_iff.mp hcg
    exact absurd (hnone.symm.trans hx) (by simp)
  | up hsome _ ih =>
    obtain ⟨x, hx, hrest⟩ := TransGen.head'_iff.mp hcg
    obtain rfl := Option.some.inj (hsome.symm.trans hx)
    rcases reflTransGen_iff_eq_or_transGen.mp hrest with rfl | hrest
    · exact List.mem_cons_self
    · exact List.mem_cons_of_mem _ (ih hrest)

theorem IsAcyclic.exists_climbs (h : t.IsAcyclic) (id : ParamId) : ∃ l, t.Climbs id l := by
  -- There are finitely many links, so a way up that does not come round gets to an id without one.
  have : IsStrictOrder ParamId (TransGen fun g c => t.Link c g) :=
    { irrefl := fun id hid => h id (transGen_swap.mp hid)
      trans := fun _ _ _ => TransGen.trans }
  have hwf := t.parents.keys.finite_toSet.wellFoundedOn (r := TransGen fun g c => t.Link c g)
  by_cases hid : t.parent? id = none
  · exact ⟨[], .top hid⟩
  · refine hwf.induction (P := fun c => ∃ l, t.Climbs c l) (mem_parents_keys hid) fun c _ ih => ?_
    cases hg : t.parent? c with
    | none => exact ⟨[], .top hg⟩
    | some g =>
      by_cases hnone : t.parent? g = none
      · exact ⟨[g], .up hg (.top hnone)⟩
      · obtain ⟨l, hl⟩ := ih g (mem_parents_keys hnone) (.single hg)
        exact ⟨g :: l, .up hg hl⟩

/-- No group is above itself exactly if every walk up ends. -/
theorem isAcyclic_iff : t.IsAcyclic ↔ ∀ id, ∃ l, t.ancestors id = some l := by
  simp only [ancestors_eq_some_iff]
  refine ⟨IsAcyclic.exists_climbs, fun h id hid => ?_⟩
  obtain ⟨l, hl⟩ := h id
  exact (List.nodup_cons.mp hl.nodup).1 (hl.mem_of_transGen hid)

theorem IsAcyclic.exists_depth (h : t.IsAcyclic) (id : ParamId) : ∃ d, t.depth id = some d := by
  obtain ⟨l, hl⟩ := isAcyclic_iff.mp h id
  exact ⟨l.length, by rw [depth, hl, Option.map_some]⟩

/-! ### What is nested in a tree -/

/-- The definitions in a tree nest along a relation, which leads from ids to the groups above. -/
def IsNested (t : EditorTree) (R : ParamId → ParamId → Prop) : Prop :=
  t.Satisfies (fun _ e => e.kind = e.param.kind ∧ e.param.NestsBy R) (TransGen R)

theorem IsNested.mono (h : t.IsNested R) (hR : ∀ c g, R c g → R' c g) : t.IsNested R' :=
  ⟨fun id e he => ⟨(h.editor id e he).1, (h.editor id e he).2.mono hR⟩,
    fun id g hg => TransGen.mono hR _ _ (h.link id g hg)⟩

/-- If nothing is nested below itself, no group is above itself. -/
theorem IsNested.isAcyclic (h : t.IsNested R) (hR : ∀ id, ¬ TransGen R id id) : t.IsAcyclic := by
  intro id hid
  have hlinks := TransGen.mono h.link id id hid
  rw [transGen_eq_self] at hlinks
  exact hR id hlinks

/-- What nests along a relation may be mounted. -/
theorem allows_nested :
    Allows (fun _ e => e.kind = e.param.kind ∧ e.param.NestsBy R) (TransGen R) (·.NestsBy R) where
  panel _ _ hp hc := hp.of_mem_panel hc
  created _ _ hm := ⟨rfl, hm⟩
  bound _ _ hm he hkind := ⟨he.1.trans hkind, hm⟩

theorem isNested_load {ps : List Param} (hps : ∀ p ∈ ps, p.NestsBy R) (t : EditorTree) :
    (t.load ps).IsNested R :=
  Satisfies.load allows_nested hps t

namespace IsNested

/-- Taking over what nests along the relation keeps a tree nested. -/
theorem foldl_patch (h : t.IsNested R) (hp : p.NestsBy R) (l : List ParamId) :
    (l.foldl (patch p) t).IsNested R := by
  refine Satisfies.foldl_patch h (fun id e ⟨hkind, hparam⟩ => ⟨?_, ?_⟩) l
  · rw [kind_patchEditor, param_patchEditor, kind_replaceDescendant]
    exact hkind
  · rw [param_patchEditor]
    exact hparam.replaceDescendant hp

variable (hR : ∀ id, ¬ TransGen R id id)

include hR

theorem syncAncestors (h : t.IsNested R) (id : ParamId) :
    ∃ t', t.syncAncestors id = some t' ∧ t'.IsNested R := by
  cases he : t.get? id with
  | none => exact ⟨t, by simp [EditorTree.syncAncestors, he], h⟩
  | some e =>
    obtain ⟨l, hl⟩ := (h.isAcyclic hR).exists_climbs id
    exact ⟨_, syncAncestors_eq he hl, h.foldl_patch (h.editor id e he).2 l⟩

theorem remount (h : t.IsNested R) (hp : p.NestsBy R) (labelled : Bool) :
    ∃ t', t.remount p labelled = some t' ∧ t'.IsNested R := by
  have hmount : (t.mount ⟨p, labelled⟩ (t.parent? p.id)).IsNested R :=
    Satisfies.mount h allows_nested hp fun g hg => h.link p.id g hg
  exact hmount.syncAncestors hR p.id

theorem exists_mountFor (h : t.IsNested R) (hp : p.NestsBy R) :
    ∃ m?, t.mountFor p = some m? ∧ ∀ m ∈ m?, m.param.NestsBy R := by
  have hdepth : ∀ host ∈ t.hosts p.id t.editors.keys, ∃ d, t.depth host = some d :=
    fun host _ => (h.isAcyclic hR).exists_depth host
  rw [mountFor]
  cases he : t.get? p.id with
  | some e =>
    refine ⟨_, rfl, fun m hm => ?_⟩
    obtain rfl := Option.some.inj hm
    exact hp
  | none =>
    rw [nearestHost]
    rcases nearestHostIn_cases hdepth with ⟨-, hnone⟩ | ⟨host, hhost, hsome, -⟩
    · exact ⟨none, by simp [hnone], fun m hm => by simp at hm⟩
    · obtain ⟨-, e, hhost, -⟩ := mem_hosts_iff.mp hhost
      refine ⟨some ⟨e.param.replaceDescendant p, e.labelled⟩, by simp [hsome, hhost],
        fun m hm => ?_⟩
      obtain rfl := Option.some.inj hm
      exact (h.editor host e hhost).2.replaceDescendant hp

/-- A redefinition is taken or refused, whatever its id. -/
theorem reconcile (h : t.IsNested R) (hp : p.NestsBy R) :
    ∃ result, t.reconcile p = some result ∧ ∀ t', result = .ok t' → t'.IsNested R := by
  obtain ⟨m?, hmountFor, hm⟩ := h.exists_mountFor hR hp
  rw [reconcile_eq, hmountFor]
  cases m? with
  | none => exact ⟨_, rfl, by rintro _ ⟨⟩⟩
  | some m =>
    obtain ⟨t', hremount, ht'⟩ := h.remount hR (hm m rfl) m.labelled
    refine ⟨.ok t', by simp [hremount], fun t'' heq => ?_⟩
    exact Except.ok.inj heq ▸ ht'

/-- A value that an editor stores reaches the groups above. -/
theorem store (h : t.IsNested R) (he : t.get? id = some e) (hstored : Editor.Stored e e') :
    ∃ t', (t.setEditor id e').syncAncestors id = some t' ∧ t'.IsNested R := by
  obtain ⟨i, name, c, c', hp, hp', hc⟩ := hstored.exists_leaf
  have hnested : (t.setEditor id e').IsNested R := by
    refine Satisfies.setEditor h ⟨?_, hp' ▸ Param.nestsBy_leaf⟩
    rw [hstored.kind_eq, (h.editor id e he).1, hp, hp']
    exact hc.symm
  exact hnested.syncAncestors hR id

/-- A pushed value is taken or refused. -/
theorem bindValue (h : t.IsNested R) (id : ParamId) (val : Value) :
    ∃ result, t.bindValue id val = some result ∧ ∀ t', result = .ok t' → t'.IsNested R := by
  rcases bindValue_cases (fun e he => (h.editor id e he).1) val with ⟨problem, hbind⟩ |
    ⟨e, e', he, hstored, -, hbind⟩
  · exact ⟨_, hbind, by rintro _ ⟨⟩⟩
  · obtain ⟨t', hsync, ht'⟩ := h.store hR he hstored
    refine ⟨.ok t', by rw [hbind, hsync, Option.map_some], fun t'' heq => ?_⟩
    exact Except.ok.inj heq ▸ ht'

/-- An interaction is taken or refused. -/
theorem interact (h : t.IsNested R) (id : ParamId) (interaction : Interaction) :
    ∃ result, t.interact id interaction = some result ∧
      ∀ t' val?, result = .ok (t', val?) → t'.IsNested R := by
  rcases interact_cases (fun e he => (h.editor id e he).1) interaction with ⟨problem, heq⟩ |
    ⟨e, he, -, -, heq⟩ | ⟨e, e', i, name, c, c', he, -, hstored, -, -, -, heq⟩
  · exact ⟨_, heq, by rintro _ _ ⟨⟩⟩
  · have hnested : (t.setEditor id (e.setExpanded (!e.expanded))).IsNested R :=
      Satisfies.setEditor h (h.editor id e he)
    refine ⟨_, heq, fun t'' val? hok => ?_⟩
    exact (Prod.mk.inj (Except.ok.inj hok)).1 ▸ hnested
  · obtain ⟨t', hsync, ht'⟩ := h.store hR he hstored
    refine ⟨.ok (t', some c'.value), by rw [heq, hsync, Option.map_some], fun t'' val? hok => ?_⟩
    exact (Prod.mk.inj (Except.ok.inj hok)).1 ▸ ht'

end IsNested

end EditorTree

end LiveTuner
