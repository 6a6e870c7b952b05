import LiveTuner.Proofs.Forest
import Mathlib.Logic.Relation
import Mathlib.Tactic.ByContra

/-!
# Groups and members

In a forest without repeated ids, the groups around an id form a chain that ends at a tree. This
file states that for the relation between an id and the group it is a member of, and says which
definitions respect it: those in which every id that the forest knows stays in its group.

## Main definitions

* `Under` — an id is that of a member of a group
* `IsTreeLike` — members lead up to one group and never round
* `Forest.Keeps` — in a definition, the ids that the forest knows are members of the same groups

## Main results

* `Forest.transGen_under_iff` — the groups around an id are those whose trees hold it
* `Forest.Keeps.isTreeLike` — a forest and a definition that keeps to it are tree-like together
* `Forest.under_define` — the members once a definition has taken its place
-/

namespace LiveTuner

open Relation

/-- Among some nodes there is a group `g` that has a member of the id `c`. -/
def Under (ns : List Param) (c g : ParamId) : Prop :=
  ∃ q ∈ ns, q.id = g ∧ ∃ m ∈ q.children, m.id = c

theorem Under.mono {ns ns' : List Param} {c g : ParamId} (h : Under ns c g) (hns : ns ⊆ ns') :
    Under ns' c g := by
  obtain ⟨q, hq, hid, hm⟩ := h
  exact ⟨q, hns hq, hid, hm⟩

theorem under_append {ns ns' : List Param} {c g : ParamId} :
    Under (ns ++ ns') c g ↔ Under ns c g ∨ Under ns' c g := by
  simp only [Under, List.mem_append, or_and_right, exists_or]

namespace Forest

variable {f : Forest} {p q : Param} {c g g' : ParamId}

/-- The ids of the members of a node. -/
def memberIds (q : Param) : List ParamId := q.children.map Param.id

theorem ids_perm_of (h : ∀ p ∈ f, p.descendantIds.Perm (p.nodes.flatMap memberIds)) :
    f.ids.Perm (f.map Param.id ++ f.nodes.flatMap memberIds) := by
  induction f with
  | nil => rfl
  | cons p rest ih =>
    have hp := h p List.mem_cons_self
    have hrest := ih fun q hq => h q (List.mem_cons_of_mem _ hq)
    have hids : ids (p :: rest) = p.id :: (p.descendantIds ++ ids rest) := by
      simp [ids, nodes, Param.ids_eq_cons]
    have hmembers : (nodes (p :: rest)).flatMap memberIds =
        p.nodes.flatMap memberIds ++ (nodes rest).flatMap memberIds := by
      simp [nodes]
    rw [hids, hmembers, List.map_cons, List.cons_append]
    refine List.Perm.cons _ ((hp.append hrest).trans ?_)
    exact List.perm_append_comm_assoc _ _ _

theorem descendantIds_perm (p : Param) : p.descendantIds.Perm (p.nodes.flatMap memberIds) := by
  induction p using Param.induction with
  | leaf i name control => rfl
  | group i name params hidden ih =>
    rw [Param.descendantIds_eq, Param.nodes_eq, List.flatMap_cons]
    exact ids_perm_of ih

/-- Every id is that of a tree or that of a member, and counts as often. -/
theorem ids_perm (f : Forest) : f.ids.Perm (f.map Param.id ++ f.nodes.flatMap memberIds) :=
  ids_perm_of fun p _ => descendantIds_perm p

theorem mem_memberIds_iff : c ∈ memberIds q ↔ ∃ m ∈ q.children, m.id = c := List.mem_map

theorem mem_ids_of_under (h : Under f.nodes c g) : c ∈ f.ids ∧ g ∈ f.ids := by
  obtain ⟨q, hq, rfl, m, hm, rfl⟩ := h
  exact ⟨mem_ids_of_mem_nodes (mem_nodes_trans hq (Param.mem_nodes_of_mem_children hm)),
    mem_ids_of_mem_nodes hq⟩

theorem mem_ids_of_under_nodes (h : Under p.nodes c g) : c ∈ p.ids := by
  rw [← nodes_singleton] at h
  rw [← ids_singleton]
  exact (mem_ids_of_under h).1

/-- Without repeated ids, an id is a member of one group at most. -/
theorem under_unique (h : f.ids.Nodup) (hg : Under f.nodes c g) (hg' : Under f.nodes c g') :
    g = g' := by
  obtain ⟨q, hq, rfl, hm⟩ := hg
  obtain ⟨q', hq', rfl, hm'⟩ := hg'
  have hmembers := ((ids_perm f).nodup_iff.mp h).of_append_right
  rw [eq_of_mem_of_nodup_flatMap hmembers hq hq' (mem_memberIds_iff.mpr hm)
    (mem_memberIds_iff.mpr hm')]

/-- Without repeated ids, the trees of a forest are no members. -/
theorem not_under_of_mem (h : f.ids.Nodup) (hp : p ∈ f) : ¬ Under f.nodes p.id g := by
  rintro ⟨q, hq, -, hm⟩
  have hdisj := (List.nodup_append.mp ((ids_perm f).nodup_iff.mp h)).2.2
  exact hdisj _ (List.mem_map_of_mem hp) _
    (List.mem_flatMap.mpr ⟨q, hq, mem_memberIds_iff.mpr hm⟩) rfl

/-- What is below a node is a member of it, or below a member. -/
theorem transGen_under_of_mem {ns : List Param} (hns : q.nodes ⊆ ns) (hc : c ∈ q.descendantIds) :
    TransGen (Under ns) c q.id := by
  induction q using Param.induction with
  | leaf i name control => exact absurd hc List.not_mem_nil
  | group i name params hidden ih =>
    obtain ⟨m, hm, hcm⟩ := Param.mem_descendantIds_iff.mp hc
    have hstep : Under ns m.id (Param.group i name params hidden).id :=
      ⟨_, hns (Param.self_mem_nodes _), rfl, m, hm, rfl⟩
    have hmns : m.nodes ⊆ ns := fun x hx =>
      hns (Param.mem_nodes_trans (Param.mem_nodes_of_mem_children hm) hx)
    rcases List.mem_cons.mp hcm with rfl | hcm
    · exact .single hstep
    · exact .tail (ih m hm hmns hcm) hstep

/-- Without repeated ids, the ids below a node are those from which members lead up to it. -/
theorem transGen_under_iff (h : f.ids.Nodup) :
    TransGen (Under f.nodes) c g ↔ ∃ q ∈ f.nodes, q.id = g ∧ c ∈ q.descendantIds := by
  constructor
  · intro hcg
    -- Going up from a group to the next one, the id stays below.
    induction hcg with
    | single hstep =>
      obtain ⟨q, hq, rfl, m, hm, rfl⟩ := hstep
      exact ⟨q, hq, rfl, Param.mem_descendantIds_iff.mpr ⟨m, hm, Param.id_mem_ids m⟩⟩
    | tail _ hstep ih =>
      obtain ⟨q, hq, hid, hc⟩ := ih
      obtain ⟨q', hq', rfl, m, hm, rfl⟩ := hstep
      obtain rfl : q = m :=
        eq_of_id_eq h hq (mem_nodes_trans hq' (Param.mem_nodes_of_mem_children hm)) hid
      exact ⟨q', hq', rfl, Param.mem_descendantIds_iff.mpr ⟨q, hm, List.mem_cons_of_mem _ hc⟩⟩
  · rintro ⟨q, hq, rfl, hc⟩
    exact transGen_under_of_mem (fun x hx => mem_nodes_trans hq hx) hc

/-- The tree at an id holds the id and everything from which members lead up to it. -/
theorem mem_idsAt_iff (h : f.ids.Nodup) :
    c ∈ f.idsAt g ↔ g ∈ f.ids ∧ ReflTransGen (Under f.nodes) c g := by
  rw [reflTransGen_iff_eq_or_transGen, transGen_under_iff h]
  constructor
  · intro hc
    by_cases hg : g ∈ f.ids
    · refine ⟨hg, ?_⟩
      obtain ⟨q, hq, rfl⟩ := mem_ids_iff.mp hg
      rw [idsAt_id h hq] at hc
      exact (List.mem_cons.mp hc).imp Eq.symm fun hc => ⟨q, hq, rfl, hc⟩
    · rw [idsAt_of_notMem hg] at hc
      exact absurd hc List.not_mem_nil
  · rintro ⟨hg, rfl | ⟨q, hq, rfl, hc⟩⟩
    · obtain ⟨q, hq, rfl⟩ := mem_ids_iff.mp hg
      rw [idsAt_id h hq]
      exact Param.id_mem_ids q
    · rw [idsAt_id h hq]
      exact List.mem_cons_of_mem _ hc

theorem self_mem_idsAt (h : f.ids.Nodup) (hg : g ∈ f.ids) : g ∈ f.idsAt g :=
  (mem_idsAt_iff h).mpr ⟨hg, .refl⟩

/-- What a definition that fits has in common with the forest stands in the tree that it takes the
place of. -/
theorem Fits.mem_idsAt (hp : f.Fits p) (h : f.ids.Nodup) (hmem : p.id ∈ f.ids) (hc : c ∈ p.ids)
    (hcf : c ∈ f.ids) : c ∈ f.idsAt p.id := by
  rcases List.mem_cons.mp hc with rfl | hc
  · exact self_mem_idsAt h hmem
  · exact hp.2 c hc hcf

/-- The tree at an id is smaller than that at any group around it. -/
theorem length_idsAt_lt (h : f.ids.Nodup) (hcg : TransGen (Under f.nodes) c g) :
    (f.idsAt c).length < (f.idsAt g).length := by
  obtain ⟨q, hq, rfl, hc⟩ := (transGen_under_iff h).mp hcg
  obtain ⟨m, hm, hcm⟩ := Param.mem_descendantIds_iff.mp hc
  obtain ⟨y, hy, rfl⟩ := Param.mem_ids_iff.mp hcm
  have hmq : m ∈ q.nodes := Param.mem_nodes_of_mem_children hm
  rw [idsAt_id h (mem_nodes_trans hq (Param.mem_nodes_trans hmq hy)), idsAt_id h hq]
  refine Nat.lt_of_le_of_lt (Param.isInfix_ids hy).length_le (Nat.lt_succ_of_le ?_)
  -- The ids of a member stand together among those below the group.
  have hsub : m.ids <:+: q.descendantIds := by
    obtain ⟨before, after, hsplit⟩ := List.append_of_mem hm
    rw [Param.descendantIds_eq, hsplit, ← Param.map_id_nodes]
    exact ⟨(nodes before).map Param.id, (nodes after).map Param.id, by simp [nodes]⟩
  exact hsub.length_le

theorem length_idsAt_le (h : f.ids.Nodup) (g : ParamId) : (f.idsAt g).length ≤ f.ids.length := by
  by_cases hg : g ∈ f.ids
  · obtain ⟨q, hq, rfl⟩ := mem_ids_iff.mp hg
    rw [idsAt_id h hq, ← Param.map_id_nodes, ids, List.length_map, List.length_map]
    exact (isInfix_nodes hq).length_le
  · simp [idsAt_of_notMem hg]

/-- Without repeated ids, members never lead up from a group to itself. -/
theorem not_transGen_under_self (h : f.ids.Nodup) : ¬ TransGen (Under f.nodes) c c := by
  intro hc
  obtain ⟨q, hq, rfl, hmem⟩ := (transGen_under_iff h).mp hc
  have hq' := nodup_ids_of_mem_nodes h hq
  exact (List.nodup_cons.mp hq').1 hmem

/-- What is above an id does not stand in the tree at the id. -/
theorem notMem_idsAt_of_above (h : f.ids.Nodup) (hcg : TransGen (Under f.nodes) c g) :
    g ∉ f.idsAt c := by
  intro hg
  exact not_transGen_under_self h (hcg.trans_left ((mem_idsAt_iff h).mp hg).2)

end Forest

/-- Among some nodes, an id is a member of one group at most, and no group is below itself. -/
structure IsTreeLike (ns : List Param) : Prop where
  /-- An id is a member of one group at most. -/
  unique : ∀ c g g', Under ns c g → Under ns c g' → g = g'
  /-- No group is below itself. -/
  irrefl : ∀ c, ¬ TransGen (Under ns) c c

/-! ### Definitions that keep members in their groups -/

/-- A definition repeats no id, and every id in it that the forest knows is a member of the same
group there. -/
def Forest.Keeps (f : Forest) (p : Param) : Prop :=
  p.ids.Nodup ∧ ∀ c g, Under p.nodes c g → c ∈ f.ids → Under f.nodes c g

instance (ns : List Param) (c g : ParamId) : Decidable (Under ns c g) := by
  unfold Under
  infer_instance

namespace Forest

variable {f : Forest} {p q : Param} {c g : ParamId}

theorem keeps_iff : f.Keeps p ↔ p.ids.Nodup ∧
    ∀ q ∈ p.nodes, ∀ m ∈ q.children, m.id ∈ f.ids → Under f.nodes m.id q.id := by
  refine and_congr_right fun _ => ⟨fun h q hq m hm => h m.id q.id ⟨q, hq, rfl, m, hm, rfl⟩, ?_⟩
  rintro h c g ⟨q, hq, rfl, m, hm, rfl⟩
  exact h q hq m hm

instance (f : Forest) (p : Param) : Decidable (f.Keeps p) := decidable_of_iff _ keeps_iff.symm

/-- A definition of ids that are new to the forest keeps to it. -/
theorem keeps_of_notMem (hp : p.ids.Nodup) (hnew : ∀ id ∈ p.ids, id ∉ f.ids) : f.Keeps p :=
  ⟨hp, fun c _ hcg hc => absurd hc (hnew c (mem_ids_of_under_nodes hcg))⟩

theorem Keeps.transGen_under (h : f.Keeps p) (hcg : TransGen (Under (f.nodes ++ p.nodes)) c g)
    (hc : c ∈ f.ids) : TransGen (Under f.nodes) c g := by
  -- From below: a step from a known id leads to a known group, in the forest as in the definition.
  induction hcg using TransGen.head_induction_on with
  | single hstep =>
    rcases under_append.mp hstep with hstep | hstep
    · exact .single hstep
    · exact .single (h.2 _ _ hstep hc)
  | head hstep _ ih =>
    have hstep' := (under_append.mp hstep).elim id fun hstep => h.2 _ _ hstep hc
    exact .head hstep' (ih (mem_ids_of_under hstep').2)

/-- What a definition has below it was there before, or is new. -/
theorem Keeps.fits (h : f.Keeps p) (hf : f.ids.Nodup) : f.Fits p := by
  refine ⟨h.1, fun id hid hmem => ?_⟩
  have hbelow : TransGen (Under (f.nodes ++ p.nodes)) id p.id :=
    transGen_under_of_mem (List.subset_append_right _ _) hid
  obtain ⟨q, hq, hqid, hidq⟩ := (transGen_under_iff hf).mp (h.transGen_under hbelow hmem)
  rw [← hqid, idsAt_id hf hq]
  exact List.mem_cons_of_mem _ hidq

/-- The groups of a forest and those of a definition that keeps to it fit together. -/
theorem Keeps.isTreeLike (h : f.Keeps p) (hf : f.ids.Nodup) : IsTreeLike (f.nodes ++ p.nodes) := by
  have hp : (ids [p]).Nodup := by
    rw [ids_singleton]
    exact h.1
  refine ⟨fun c g g' hg hg' => ?_, fun c hc => ?_⟩
  · by_cases hmem : c ∈ f.ids
    · -- A known id has its group in the forest, whichever of the two the group was found in.
      have hold : ∀ {g}, Under (f.nodes ++ p.nodes) c g → Under f.nodes c g := fun hg =>
        (under_append.mp hg).elim id fun hg => h.2 _ _ hg hmem
      exact under_unique hf (hold hg) (hold hg')
    · have hnew : ∀ {g}, Under (f.nodes ++ p.nodes) c g → Under (nodes [p]) c g := by
        intro g hg
        rw [nodes_singleton]
        exact (under_append.mp hg).resolve_left fun hg => hmem (mem_ids_of_under hg).1
      exact under_unique hp (hnew hg) (hnew hg')
  · by_cases hmem : c ∈ f.ids
    · exact not_transGen_under_self hf (h.transGen_under hc hmem)
    · -- Up to an id that the forest does not know, all groups are new.
      have hnew : ∀ {c g}, TransGen (Under (f.nodes ++ p.nodes)) c g → g ∉ f.ids →
          TransGen (Under (nodes [p])) c g := by
        intro c g hcg
        rw [nodes_singleton]
        induction hcg with
        | single hstep =>
          intro hg
          exact .single ((under_append.mp hstep).resolve_left fun hstep =>
            hg (mem_ids_of_under hstep).2)
        | @tail b g _ hstep ih =>
          intro hg
          have hstep' := (under_append.mp hstep).resolve_left fun hstep =>
            hg (mem_ids_of_under hstep).2
          refine .tail (ih fun hb => ?_) hstep'
          exact hg (mem_ids_of_under (h.2 _ _ hstep' hb)).2
      exact not_transGen_under_self hp (hnew hc hmem)

/-- Away from the exchanged id, a node keeps the ids of its members. -/
theorem under_exchange_iff {y : Param} (h : y.id ≠ p.id) :
    (∃ m ∈ (y.exchange p).children, m.id = c) ↔ ∃ m ∈ y.children, m.id = c := by
  rw [Param.children_exchange_of_ne h]
  simp

/-- The members once a definition has taken its place: those of the definition, and those of the
groups outside of the tree at its id. -/
theorem under_define (hf : f.ids.Nodup) :
    Under (f.define p).nodes c g ↔ Under p.nodes c g ∨ g ∉ f.idsAt p.id ∧ Under f.nodes c g := by
  have hne : ∀ {y}, y ∈ f.nodes → y.id ∉ f.idsAt p.id → y.id ≠ p.id := by
    intro y hy hout he
    rw [← he, idsAt_id hf hy] at hout
    exact hout (Param.id_mem_ids y)
  constructor
  · rintro ⟨x, hx, rfl, hm⟩
    rcases (mem_nodes_define hf).mp hx with hx | ⟨y, hy, hout, rfl⟩
    · exact Or.inl ⟨x, hx, rfl, hm⟩
    · rw [Param.exchange_id]
      exact Or.inr ⟨hout, y, hy, rfl, (under_exchange_iff (hne hy hout)).mp hm⟩
  · rintro (⟨x, hx, rfl, hm⟩ | ⟨hout, y, hy, rfl, hm⟩)
    · exact ⟨x, (mem_nodes_define hf).mpr (Or.inl hx), rfl, hm⟩
    · exact ⟨y.exchange p, (mem_nodes_define hf).mpr (Or.inr ⟨y, hy, hout, rfl⟩),
        Param.exchange_id y p, (under_exchange_iff (hne hy hout)).mpr hm⟩

theorem fits_singleton (hf : f.ids.Nodup) (h : f.Fits p) (hq : q ∈ f.nodes) (hp : p.id ∈ q.ids) :
    Fits [q] p := by
  have hq' : (ids [q]).Nodup := by
    rw [ids_singleton]
    exact nodup_ids_of_mem_nodes hf hq
  refine ⟨h.1, fun id hid hmem => ?_⟩
  rw [ids_singleton] at hmem
  have hat := h.2 id hid (mem_ids_trans hq hmem)
  obtain ⟨x, hx, hxid⟩ := Param.mem_ids_iff.mp hp
  have hx' : x ∈ nodes [q] := by
    rw [nodes_singleton]
    exact hx
  rw [← hxid] at hat ⊢
  rw [idsAt_id hf (mem_nodes_trans hq hx)] at hat
  rwa [idsAt_id hq' hx']

/-- A definition that keeps to a forest also does so within a larger one. -/
theorem Keeps.exchange (h : f.Keeps p) (hf : f.ids.Nodup) (hq : q ∈ f.nodes) (hp : p.id ∈ q.ids) :
    f.Keeps (q.exchange p) := by
  have hq' : (ids [q]).Nodup := by
    rw [ids_singleton]
    exact nodup_ids_of_mem_nodes hf hq
  have hdefine : define [q] p = [q.exchange p] := by
    rw [define, ids_singleton, if_pos hp]
    rfl
  have hfits := fits_singleton hf (h.fits hf) hq hp
  refine ⟨?_, fun c g hcg hc => ?_⟩
  · have hnodup := nodup_ids_define hq' hfits
    rwa [hdefine, ids_singleton] at hnodup
  · rw [← nodes_singleton, ← hdefine, under_define hq', nodes_singleton] at hcg
    rcases hcg with hcg | ⟨-, hcg⟩
    · exact h.2 c g hcg hc
    · exact hcg.mono fun x hx => mem_nodes_trans hq hx

/-- A definition takes its place in the same way within any node that holds it. -/
theorem define_exchange (hf : f.ids.Nodup) (hq : q ∈ f.nodes) (hp : p.id ∈ q.ids) :
    f.define (q.exchange p) = f.define p := by
  have hmem : (q.exchange p).id ∈ f.ids := by
    rw [Param.exchange_id]
    exact mem_ids_of_mem_nodes hq
  rw [define, define, if_pos hmem, if_pos (mem_ids_trans hq hp)]
  obtain ⟨x, hx, hqx⟩ := List.mem_flatMap.mp hq
  have hroots : (f.flatMap Param.ids).Nodup := by
    rwa [ids, nodes, List.map_flatMap, funext Param.map_id_nodes] at hf
  refine List.map_congr_left fun y hy => ?_
  by_cases hqy : q ∈ y.nodes
  · exact Param.exchange_exchange (nodup_ids_of_mem_nodes hf (mem_nodes_of_mem hy)) hqy hp
  · -- Neither id stands in another tree than the one that holds the node.
    have hout : ∀ {i}, i ∈ q.ids → i ∉ y.ids := by
      intro i hi hiy
      obtain rfl := eq_of_mem_of_nodup_flatMap hroots hx hy (Param.mem_ids_of_mem_ids hqx hi) hiy
      exact hqy hqx
    rw [Param.exchange_of_notMem (hout hp), Param.exchange_of_notMem]
    rw [Param.exchange_id]
    exact hout (Param.id_mem_ids q)

end Forest

end LiveTuner
