import LiveTuner.Param.Nesting
import Mathlib.Data.List.Nodup

/-!
# The nodes of a parameter

A parameter is a tree: its nodes are the parameter itself and the nodes of its members, depth
first. The walks of `Param.Nesting` list, look for and exchange ids along such trees; here they are
related to the list of nodes, and the exchange of the first copy of an id to the exchange of every
copy. The two agree as soon as no id occurs twice.

## Main definitions

* `Param.nodes` — the parameter and everything below it, depth first
* `Param.exchange` — the parameter with every node of an id exchanged

## Main results

* `Param.induction` — induction over the members of groups
* `Param.isInfix_nodes` — the nodes of a node stand together
* `Param.replaceDescendant?_eq` — exchanging the first copy is exchanging every copy
-/

namespace LiveTuner

/-- Lists that share an item do not stand together without repeating it, unless they are the same
list. -/
theorem eq_of_mem_of_nodup_flatMap {α β : Type} {l : List α} {f : α → List β} {a b : α} {c : β}
    (h : (l.flatMap f).Nodup) (ha : a ∈ l) (hb : b ∈ l) (hca : c ∈ f a) (hcb : c ∈ f b) :
    a = b := by
  induction l with
  | nil => exact absurd ha List.not_mem_nil
  | cons x rest ih =>
    rw [List.flatMap_cons] at h
    obtain ⟨-, hrest, hdisj⟩ := List.nodup_append.mp h
    -- What stands in the first list stands in none of the others.
    have hout : ∀ y ∈ rest, c ∈ f y → c ∉ f x := fun y hy hcy hcx =>
      hdisj c hcx c (List.mem_flatMap.mpr ⟨y, hy, hcy⟩) rfl
    rcases List.mem_cons.mp ha with rfl | ha'
    · rcases List.mem_cons.mp hb with rfl | hb'
      · rfl
      · exact absurd hca (hout b hb' hcb)
    · rcases List.mem_cons.mp hb with rfl | hb'
      · exact absurd hcb (hout a ha' hca)
      · exact ih hrest ha' hb'

namespace Param

/-- Induction over a parameter: a group may use what holds of its members. -/
@[elab_as_elim]
theorem induction {motive : Param → Prop}
    (leaf : ∀ id name control, motive (leaf id name control))
    (group : ∀ id name params hidden, (∀ q ∈ params.map Prod.snd, motive q) →
      motive (group id name params hidden)) (p : Param) : motive p :=
  @Param.rec motive (fun params => ∀ q ∈ params.map Prod.snd, motive q)
    (fun member => motive member.2) leaf group (fun _ h => absurd h List.not_mem_nil)
    (fun _ _ hmember hrest => List.forall_mem_cons.mpr ⟨hmember, hrest⟩) (fun _ _ h => h) p

mutual

/-- The parameter and everything below it, depth first. -/
def nodes : Param → List Param
  | leaf id name control => [leaf id name control]
  | group id name params hidden => group id name params hidden :: nodesAmong params

/-- The nodes of parameters under attributes, in order. -/
def nodesAmong : List (String × Param) → List Param
  | [] => []
  | (_, p) :: rest => nodes p ++ nodesAmong rest

end

mutual

/-- The parameter with every node of the id of `r`, itself included, exchanged for `r`. -/
def exchange (p r : Param) : Param :=
  match p with
  | leaf id name control => if id = r.id then r else leaf id name control
  | group id name params hidden =>
    if id = r.id then r else group id name (exchangeAmong params r) hidden

/-- Parameters under attributes with every node of the id of `r` exchanged for `r`. -/
def exchangeAmong (params : List (String × Param)) (r : Param) : List (String × Param) :=
  match params with
  | [] => []
  | (key, p) :: rest => (key, p.exchange r) :: exchangeAmong rest r

end

variable {p q r : Param}

@[simp] theorem id_leaf (i : ParamId) (name : String) (control : Control) :
    (leaf i name control).id = i := rfl

@[simp] theorem id_group (i : ParamId) (name : String) (params : List (String × Param))
    (hidden : List String) : (group i name params hidden).id = i := rfl

@[simp] theorem children_leaf (i : ParamId) (name : String) (control : Control) :
    (leaf i name control).children = [] := rfl

@[simp] theorem children_group (i : ParamId) (name : String) (params : List (String × Param))
    (hidden : List String) : (group i name params hidden).children = params.map Prod.snd := rfl

/-! ### Members, nodes and ids -/

theorem nodesAmong_eq (params : List (String × Param)) :
    nodesAmong params = (params.map Prod.snd).flatMap nodes := by
  induction params with
  | nil => rfl
  | cons member rest ih => simp [nodesAmong, ih]

theorem exchangeAmong_eq (params : List (String × Param)) (r : Param) :
    exchangeAmong params r = params.map fun m => (m.1, m.2.exchange r) := by
  induction params with
  | nil => rfl
  | cons member rest ih => simp [exchangeAmong, ih]

/-- A parameter comes first among its nodes, before those of its members. -/
theorem nodes_eq (p : Param) : p.nodes = p :: p.children.flatMap nodes := by
  cases p with
  | leaf id name control => rfl
  | group id name params hidden => simp [nodes, nodesAmong_eq, children, members]

theorem mem_nodes_iff : q ∈ p.nodes ↔ q = p ∨ ∃ c ∈ p.children, q ∈ c.nodes := by
  rw [nodes_eq, List.mem_cons, List.mem_flatMap]

@[simp] theorem self_mem_nodes (p : Param) : p ∈ p.nodes := by
  rw [nodes_eq]
  exact List.mem_cons_self

theorem mem_nodes_of_mem_children (h : q ∈ p.children) : q ∈ p.nodes :=
  mem_nodes_iff.mpr (Or.inr ⟨q, h, self_mem_nodes q⟩)

/-- A list of ids of parameters and of those below them is the list of the ids of their nodes. -/
theorem idsAmong_eq_of {params : List (String × Param)}
    (h : ∀ q ∈ params.map Prod.snd, q.nodes.map id = q.ids) :
    idsAmong params = ((params.map Prod.snd).flatMap nodes).map id := by
  induction params with
  | nil => rfl
  | cons member rest ih =>
    have hhead := h member.2 (by simp)
    have hrest := ih fun q hq => h q (by simp only [List.map_cons, List.mem_cons]; exact Or.inr hq)
    simp only [idsAmong, List.map_cons, List.flatMap_cons, List.map_append, hhead, hrest]
    rfl

/-- The ids of a parameter are those of its nodes. -/
@[simp] theorem map_id_nodes (p : Param) : p.nodes.map id = p.ids := by
  induction p using Param.induction with
  | leaf id name control => rfl
  | group id name params hidden ih =>
    rw [nodes_eq, List.map_cons, children, members, ← idsAmong_eq_of ih]
    rfl

theorem descendantIds_eq (p : Param) : p.descendantIds = (p.children.flatMap nodes).map id := by
  have h := map_id_nodes p
  rw [nodes_eq, List.map_cons, ids, List.cons_inj_right] at h
  exact h.symm

theorem ids_eq_cons (p : Param) : p.ids = p.id :: p.descendantIds := rfl

@[simp] theorem id_mem_ids (p : Param) : p.id ∈ p.ids := List.mem_cons_self

theorem mem_ids_iff {i : ParamId} : i ∈ p.ids ↔ ∃ q ∈ p.nodes, q.id = i := by
  rw [← map_id_nodes, List.mem_map]

theorem mem_ids_of_mem_nodes (h : q ∈ p.nodes) : q.id ∈ p.ids := mem_ids_iff.mpr ⟨q, h, rfl⟩

theorem mem_descendantIds_iff {i : ParamId} :
    i ∈ p.descendantIds ↔ ∃ c ∈ p.children, i ∈ c.ids := by
  simp only [descendantIds_eq, List.mem_map, List.mem_flatMap, mem_ids_iff]
  constructor
  · rintro ⟨q, ⟨c, hc, hq⟩, rfl⟩
    exact ⟨c, hc, q, hq, rfl⟩
  · rintro ⟨c, hc, q, hq, rfl⟩
    exact ⟨q, ⟨c, hc, hq⟩, rfl⟩

theorem occursAmong_iff_of {i : ParamId} {params : List (String × Param)}
    (h : ∀ q ∈ params.map Prod.snd, q.hasDescendant i = true ↔ i ∈ q.descendantIds) :
    occursAmong i params = true ↔ ∃ q ∈ params.map Prod.snd, i ∈ q.ids := by
  induction params with
  | nil => simp [occursAmong]
  | cons member rest ih =>
    obtain ⟨hhead, hrest⟩ := List.forall_mem_cons.mp h
    rw [occursAmong, Bool.or_eq_true, Bool.or_eq_true, hhead, ih hrest, beq_iff_eq]
    simp [ids_eq_cons, eq_comm]

/-- An id is found below a parameter if it is one of the ids there. -/
theorem hasDescendant_iff {i : ParamId} (p : Param) :
    p.hasDescendant i = true ↔ i ∈ p.descendantIds := by
  induction p using Param.induction with
  | leaf j name control => simp [hasDescendant, descendantIds]
  | group j name params hidden ih =>
    rw [hasDescendant, occursAmong_iff_of ih, mem_descendantIds_iff]
    rfl

/-- The nodes of a node stand together among the nodes of the whole. -/
theorem isInfix_nodes (h : q ∈ p.nodes) : q.nodes <:+: p.nodes := by
  induction p using Param.induction with
  | leaf id name control =>
    simp only [nodes, List.mem_singleton] at h
    subst h
    exact List.infix_refl _
  | group id name params hidden ih =>
    rcases mem_nodes_iff.mp h with rfl | ⟨c, hc, hq⟩
    · exact List.infix_refl _
    · have hcnodes : c.nodes <:+: (group id name params hidden).children.flatMap nodes := by
        obtain ⟨before, after, hsplit⟩ := List.append_of_mem hc
        exact ⟨before.flatMap nodes, after.flatMap nodes, by simp [hsplit]⟩
      rw [nodes_eq (group id name params hidden)]
      exact (ih c hc hq).trans (hcnodes.trans (List.suffix_cons _ _).isInfix)

theorem isInfix_ids (h : q ∈ p.nodes) : q.ids <:+: p.ids := by
  rw [← map_id_nodes, ← map_id_nodes]
  exact (isInfix_nodes h).map id

theorem mem_nodes_trans (hq : q ∈ p.nodes) (hr : r ∈ q.nodes) : r ∈ p.nodes :=
  (isInfix_nodes hq).subset hr

theorem nodup_ids_of_mem_nodes (h : p.ids.Nodup) (hq : q ∈ p.nodes) : q.ids.Nodup :=
  h.sublist (isInfix_ids hq).sublist

/-- Without repeated ids, an id belongs to one node only. -/
theorem eq_of_id_eq (h : p.ids.Nodup) (hq : q ∈ p.nodes) (hr : r ∈ p.nodes) (hid : q.id = r.id) :
    q = r := by
  rw [← map_id_nodes] at h
  exact List.inj_on_of_nodup_map h hq hr hid

/-- Two parameters that are nodes of each other are the same. -/
theorem eq_of_mem_nodes (hq : q ∈ p.nodes) (hp : p ∈ q.nodes) : q = p := by
  have hnodes : q.nodes = p.nodes :=
    (isInfix_nodes hq).sublist.antisymm (isInfix_nodes hp).sublist
  rw [nodes_eq, nodes_eq p] at hnodes
  exact (List.cons.inj hnodes).1

/-- Without repeated ids, the id of a parameter is not below any of its other nodes. -/
theorem notMem_ids_of_ne (h : p.ids.Nodup) (hq : q ∈ p.nodes) (hne : q.id ≠ p.id) :
    p.id ∉ q.ids := by
  intro hp
  obtain ⟨x, hx, hid⟩ := mem_ids_iff.mp hp
  obtain rfl := eq_of_id_eq h (mem_nodes_trans hq hx) (self_mem_nodes p) hid
  exact hne (congrArg id (eq_of_mem_nodes hq hx))

/-! ### Exchanging -/

@[simp] theorem exchange_id (p r : Param) : (p.exchange r).id = p.id := by
  cases p with
  | leaf i name control =>
    rw [exchange]
    split
    · next h => exact h.symm
    · rfl
  | group i name params hidden =>
    rw [exchange]
    split
    · next h => exact h.symm
    · rfl

theorem exchange_of_id_eq (h : p.id = r.id) : p.exchange r = r := by
  cases p with
  | leaf i name control => exact if_pos h
  | group i name params hidden => exact if_pos h

theorem exchange_leaf_of_ne {i : ParamId} {name : String} {control : Control} (h : i ≠ r.id) :
    (leaf i name control).exchange r = leaf i name control := if_neg h

theorem exchange_group_of_ne {i : ParamId} {name : String} {params : List (String × Param)}
    {hidden : List String} (h : i ≠ r.id) :
    (group i name params hidden).exchange r =
      group i name (params.map fun m => (m.1, m.2.exchange r)) hidden := by
  rw [exchange, if_neg h, exchangeAmong_eq]

/-- Away from the exchanged id, the members are exchanged one by one. -/
theorem children_exchange_of_ne (h : p.id ≠ r.id) :
    (p.exchange r).children = p.children.map (·.exchange r) := by
  cases p with
  | leaf i name control =>
    rw [id_leaf] at h
    rw [exchange_leaf_of_ne h]
    rfl
  | group i name params hidden =>
    rw [id_group] at h
    rw [exchange_group_of_ne h]
    simp [Function.comp_def]

/-- Once an id has been exchanged for a parameter that is no group, all that is left of the id is
that parameter. -/
theorem eq_of_mem_nodes_exchange (hr : r.children = []) (hq : q ∈ (p.exchange r).nodes)
    (hid : q.id = r.id) : q = r := by
  have hself : ∀ {p : Param}, p.id = r.id → q ∈ (p.exchange r).nodes → q = r := by
    intro p hp hq
    rwa [exchange_of_id_eq hp, nodes_eq, hr, List.flatMap_nil, List.mem_singleton] at hq
  induction p using Param.induction with
  | leaf i name control =>
    by_cases hi : i = r.id
    · exact hself (p := leaf i name control) hi hq
    · rw [exchange_leaf_of_ne hi, nodes, List.mem_singleton] at hq
      subst hq
      exact absurd hid hi
  | group i name params hidden ih =>
    by_cases hi : (group i name params hidden).id = r.id
    · exact hself hi hq
    · rcases mem_nodes_iff.mp hq with rfl | ⟨c, hc, hqc⟩
      · exact absurd ((exchange_id _ _).symm.trans hid) hi
      · rw [children_exchange_of_ne hi] at hc
        obtain ⟨member, hmember, rfl⟩ := List.mem_map.mp hc
        exact ih member hmember hqc

/-- An id that does not occur cannot be exchanged. -/
theorem exchange_of_notMem (h : r.id ∉ p.ids) : p.exchange r = p := by
  induction p using Param.induction with
  | leaf i name control => exact exchange_leaf_of_ne fun hi => h (hi ▸ id_mem_ids _)
  | group i name params hidden ih =>
    have hi : i ≠ r.id := fun hi => h (hi ▸ id_mem_ids (group i name params hidden))
    have hmembers : ∀ member ∈ params, (member.1, member.2.exchange r) = member := by
      intro member hmember
      have hmem : member.2 ∈ params.map Prod.snd := List.mem_map_of_mem hmember
      rw [ih member.2 hmem fun hr => h (List.mem_cons_of_mem _ (mem_descendantIds_iff.mpr
        ⟨member.2, hmem, hr⟩))]
    rw [exchange_group_of_ne hi, List.map_congr_left hmembers, List.map_id']

/-- Where an id does not occur, no node has a copy of it to exchange. -/
theorem map_exchange_of_notMem {ns : List Param} (h : ∀ p ∈ ns, r.id ∉ p.ids) :
    ns.map (·.exchange r) = ns := by
  rw [List.map_congr_left fun p hp => exchange_of_notMem (h p hp), List.map_id']

theorem notMem_ids_of_notMem_flatMap {f : List Param} {i : ParamId}
    (h : i ∉ (f.flatMap nodes).map id) (hp : p ∈ f.flatMap nodes) : i ∉ p.ids := by
  intro hi
  obtain ⟨q, hq, hpq⟩ := List.mem_flatMap.mp hp
  refine h (List.mem_map.mpr ?_)
  obtain ⟨x, hx, hxi⟩ := mem_ids_iff.mp hi
  exact ⟨x, List.mem_flatMap.mpr ⟨q, hq, mem_nodes_trans hpq hx⟩, hxi⟩

/-- The nodes around an exchanged one stay in place, each with its own copy exchanged. -/
def ExchangedWithin (ns ns' : List Param) (q r : Param) : Prop :=
  ∃ before after, ns = before ++ q.nodes ++ after ∧
    ns' = before.map (·.exchange r) ++ r.nodes ++ after.map (·.exchange r)

/-- Exchanging among several parameters is exchanging within the one that has the node. -/
theorem exchangedWithin_flatMap {f : List Param} (h : ((f.flatMap nodes).map id).Nodup)
    (hq : q ∈ f.flatMap nodes) (hid : q.id = r.id)
    (hf : ∀ p ∈ f, p.ids.Nodup → q ∈ p.nodes → ExchangedWithin p.nodes (p.exchange r).nodes q r) :
    ExchangedWithin (f.flatMap nodes) ((f.map (·.exchange r)).flatMap nodes) q r := by
  obtain ⟨p, hp, hqp⟩ := List.mem_flatMap.mp hq
  obtain ⟨f₁, f₂, rfl⟩ := List.append_of_mem hp
  simp only [List.flatMap_append, List.flatMap_cons, List.map_append, map_id_nodes] at h
  obtain ⟨h₁, hrest, hdisj⟩ := List.nodup_append.mp h
  obtain ⟨hp', h₂, hdisj'⟩ := List.nodup_append.mp hrest
  have hrp : r.id ∈ p.ids := hid ▸ mem_ids_of_mem_nodes hqp
  have hr₁ : r.id ∉ (f₁.flatMap nodes).map id := fun hr =>
    hdisj _ hr _ (List.mem_append_left _ hrp) rfl
  have hr₂ : r.id ∉ (f₂.flatMap nodes).map id := fun hr => hdisj' _ hrp _ hr rfl
  -- The id is below one of the parameters only, so the exchange leaves the others alone.
  have hstay : ∀ {g : List Param}, r.id ∉ (g.flatMap nodes).map id →
      g.map (·.exchange r) = g ∧ (g.flatMap nodes).map (·.exchange r) = g.flatMap nodes := by
    intro g hg
    refine ⟨map_exchange_of_notMem fun x hx => ?_, map_exchange_of_notMem fun x hx => ?_⟩
    · exact notMem_ids_of_notMem_flatMap hg (List.mem_flatMap.mpr ⟨x, hx, self_mem_nodes x⟩)
    · exact notMem_ids_of_notMem_flatMap hg hx
  obtain ⟨before, after, hnodes, hnodes'⟩ := hf p (by simp) hp' hqp
  refine ⟨f₁.flatMap nodes ++ before, after ++ f₂.flatMap nodes, ?_, ?_⟩
  · simp [hnodes]
  · simp [hnodes', (hstay hr₁).1, (hstay hr₁).2, (hstay hr₂).1, (hstay hr₂).2]

theorem nodup_map_id_flatMap_children (h : p.ids.Nodup) :
    ((p.children.flatMap nodes).map id).Nodup := by
  rw [← descendantIds_eq]
  exact h.of_cons

/-- The nodes of a parameter around an exchanged one stay in place. -/
theorem exchangedWithin_nodes (h : p.ids.Nodup) (hq : q ∈ p.nodes) (hid : q.id = r.id) :
    ExchangedWithin p.nodes (p.exchange r).nodes q r := by
  induction p using Param.induction with
  | leaf i name control =>
    obtain rfl : q = leaf i name control := by simpa [nodes] using hq
    exact ⟨[], [], by simp, by simp [exchange_of_id_eq hid]⟩
  | group i name params hidden ih =>
    by_cases hi : i = r.id
    · obtain rfl : q = group i name params hidden :=
        eq_of_id_eq h hq (self_mem_nodes _) (hid.trans hi.symm)
      exact ⟨[], [], by simp, by simp [exchange_of_id_eq hid]⟩
    · have hne : (group i name params hidden).id ≠ r.id := hi
      have hbelow : q ∈ (group i name params hidden).children.flatMap nodes := by
        obtain rfl | ⟨c, hc, hqc⟩ := mem_nodes_iff.mp hq
        · exact absurd hid hne
        · exact List.mem_flatMap.mpr ⟨c, hc, hqc⟩
      obtain ⟨before, after, hnodes, hnodes'⟩ := exchangedWithin_flatMap
        (nodup_map_id_flatMap_children h) hbelow hid fun c hc hc' hqc => ih c hc hc' hqc
      refine ⟨group i name params hidden :: before, after, ?_, ?_⟩
      · rw [nodes_eq, hnodes]
        rfl
      · rw [nodes_eq, children_exchange_of_ne hne, hnodes']
        rfl

theorem mem_ids_of_mem_ids {i : ParamId} (hq : q ∈ p.nodes) (hi : i ∈ q.ids) : i ∈ p.ids :=
  (isInfix_ids hq).subset hi

/-- Without repeated ids, the members of a group share no id. -/
theorem eq_of_mem_ids_of_mem_children {b c : Param} {i : ParamId} (h : p.ids.Nodup)
    (hc : c ∈ p.children) (hb : b ∈ p.children) (hic : i ∈ c.ids) (hib : i ∈ b.ids) : c = b := by
  have hnodup : (p.children.flatMap ids).Nodup := by
    have := nodup_map_id_flatMap_children h
    rwa [List.map_flatMap, funext map_id_nodes] at this
  exact eq_of_mem_of_nodup_flatMap hnodup hc hb hic hib

/-- Exchanging a node for what an exchange makes of it is that exchange. -/
theorem exchange_exchange (h : p.ids.Nodup) (hq : q ∈ p.nodes) (hr : r.id ∈ q.ids) :
    p.exchange (q.exchange r) = p.exchange r := by
  induction p using Param.induction with
  | leaf i name control =>
    obtain rfl : q = leaf i name control := by simpa [nodes] using hq
    exact exchange_of_id_eq (exchange_id _ r).symm
  | group i name params hidden ih =>
    by_cases hid : i = q.id
    · obtain rfl : q = group i name params hidden := eq_of_id_eq h hq (self_mem_nodes _) hid.symm
      exact exchange_of_id_eq (exchange_id _ r).symm
    · obtain rfl | ⟨c, hc, hqc⟩ := mem_nodes_iff.mp hq
      · exact absurd rfl hid
      -- The id of `r` is below the group, so it is not that of the group.
      have hir : i ≠ r.id := by
        rintro rfl
        have hbelow := mem_descendantIds_iff.mpr ⟨c, hc, mem_ids_of_mem_ids hqc hr⟩
        exact (List.nodup_cons.mp h).1 hbelow
      have hiq : i ≠ (q.exchange r).id := by
        rwa [exchange_id]
      rw [exchange_group_of_ne hiq, exchange_group_of_ne hir]
      congr 1
      refine List.map_congr_left fun member hmember => ?_
      have hmem : member.2 ∈ (group i name params hidden).children := List.mem_map_of_mem hmember
      have hmember' := nodup_ids_of_mem_nodes h (mem_nodes_of_mem_children hmem)
      by_cases hqm : q ∈ member.2.nodes
      · rw [ih member.2 hmem hmember' hqm]
      · -- Neither id stands in another member than the one that holds the node.
        have hout : ∀ {j}, j ∈ q.ids → j ∉ member.2.ids := by
          intro j hj hjm
          obtain rfl := eq_of_mem_ids_of_mem_children h hc hmem (mem_ids_of_mem_ids hqc hj) hjm
          exact hqm hqc
        rw [exchange_of_notMem (hout hr), exchange_of_notMem]
        rw [exchange_id]
        exact hout (id_mem_ids q)

/-! ### The first copy and every copy -/

theorem replaceAmong?_eq_none_iff {params : List (String × Param)} :
    replaceAmong? params r = none ↔
      ∀ m ∈ params.map Prod.snd, m.id ≠ r.id ∧ m.replaceDescendant? r = none := by
  induction params with
  | nil => simp [replaceAmong?]
  | cons member rest ih =>
    obtain ⟨key, p⟩ := member
    rw [List.map_cons, List.forall_mem_cons, ← ih, replaceAmong?]
    by_cases hid : p.id = r.id
    · simp [hid]
    · cases hp : p.replaceDescendant? r <;> simp [hid]

/-- The walk finds no copy exactly if the id is not below. -/
theorem replaceDescendant?_eq_none_iff :
    p.replaceDescendant? r = none ↔ r.id ∉ p.descendantIds := by
  induction p using Param.induction with
  | leaf i name control => simp [replaceDescendant?, descendantIds]
  | group i name params hidden ih =>
    have hmember : ∀ m ∈ params.map Prod.snd,
        (m.id ≠ r.id ∧ m.replaceDescendant? r = none ↔ r.id ∉ m.ids) := by
      intro m hm
      rw [ih m hm, ids_eq_cons, List.mem_cons, not_or, ne_comm]
    rw [replaceDescendant?, Option.map_eq_none_iff, replaceAmong?_eq_none_iff,
      forall₂_congr hmember, mem_descendantIds_iff]
    simp

/-- An exchange among members takes place in the first of them that has the id at all: that member
itself is exchanged, or what is below it. -/
theorem exists_member_of_replaceAmong? {params params' : List (String × Param)}
    (h : replaceAmong? params r = some params') :
    ∃ index key p q, params[index]? = some (key, p) ∧ params' = params.set index (key, q) ∧
      (∀ index' < index, ∀ m, params[index']? = some m → r.id ∉ m.2.ids) ∧
      (p.id = r.id ∧ q = r ∨ p.id ≠ r.id ∧ p.replaceDescendant? r = some q) := by
  induction params generalizing params' with
  | nil => cases h
  | cons member rest ih =>
    obtain ⟨key, p⟩ := member
    have hnone_before : ∀ index' < 0, ∀ m, ((key, p) :: rest)[index']? = some m → r.id ∉ m.2.ids :=
      fun _ hlt => absurd hlt (Nat.not_lt_zero _)
    rw [replaceAmong?] at h
    split at h
    · next hid =>
      cases h
      exact ⟨0, key, p, r, rfl, rfl, hnone_before, Or.inl ⟨hid, rfl⟩⟩
    · next hid =>
      split at h
      · next q hq =>
        cases h
        exact ⟨0, key, p, q, rfl, rfl, hnone_before, Or.inr ⟨hid, hq⟩⟩
      · next hnone =>
        -- The first member has been walked through in vain, so the id is not in it.
        have hfirst : r.id ∉ p.ids := fun hr =>
          (List.mem_cons.mp hr).elim (Ne.symm hid) (replaceDescendant?_eq_none_iff.mp hnone)
        obtain ⟨rest', hrest, rfl⟩ := Option.map_eq_some_iff.mp h
        obtain ⟨index, key', p', q, hp', rfl, hbefore, hq⟩ := ih hrest
        refine ⟨index + 1, key', p', q, hp', rfl, fun index' hlt m hm => ?_, hq⟩
        cases index' with
        | zero => exact Option.some.inj hm ▸ hfirst
        | succ index' => exact hbefore index' (Nat.lt_of_succ_lt_succ hlt) m hm

theorem id_of_replaceDescendant? (h : p.replaceDescendant? r = some q) : q.id = p.id := by
  cases p with
  | leaf i name control => simp [replaceDescendant?] at h
  | group i name params hidden =>
    obtain ⟨params', -, rfl⟩ := Option.map_eq_some_iff.mp h
    rfl

/-- Where a copy is exchanged among members, they keep their ids, and each is one that was there,
the new copy, or one in which the copy is exchanged. -/
theorem members_of_replaceAmong? {params params' : List (String × Param)}
    (h : replaceAmong? params r = some params') :
    params'.map (·.2.id) = params.map (·.2.id) ∧
    ∀ m ∈ params'.map Prod.snd, m ∈ params.map Prod.snd ∨ m = r ∨
      ∃ q ∈ params.map Prod.snd, q.replaceDescendant? r = some m := by
  obtain ⟨index, key, p, q, hp, rfl, -, hq⟩ := exists_member_of_replaceAmong? h
  have hmem : p ∈ params.map Prod.snd := List.mem_map_of_mem (List.mem_of_getElem? hp)
  have hid : q.id = p.id := by
    rcases hq with ⟨hid, rfl⟩ | ⟨-, hq⟩
    · exact hid.symm
    · exact id_of_replaceDescendant? hq
  refine ⟨?_, fun m hm => ?_⟩
  · obtain ⟨hindex, hmember⟩ := List.getElem?_eq_some_iff.mp hp
    have hlt : index < (params.map (·.2.id)).length := by simpa using hindex
    have hkept : q.id = (params.map (·.2.id))[index] := by simp [hmember, hid]
    rw [List.map_set, hkept, List.set_getElem_self]
  · rw [List.map_set] at hm
    rcases List.mem_or_eq_of_mem_set hm with hm | rfl
    · exact Or.inl hm
    · rcases hq with ⟨-, rfl⟩ | ⟨-, hq⟩
      · exact Or.inr (Or.inl rfl)
      · exact Or.inr (Or.inr ⟨p, hmem, hq⟩)

@[simp] theorem id_replaceDescendant (p r : Param) : (p.replaceDescendant r).id = p.id := by
  rw [replaceDescendant]
  cases h : p.replaceDescendant? r with
  | none => rfl
  | some q => exact id_of_replaceDescendant? h

theorem replaceDescendant_of_notMem (h : r.id ∉ p.descendantIds) : p.replaceDescendant r = p := by
  rw [replaceDescendant, replaceDescendant?_eq_none_iff.mpr h, Option.getD_none]

/-- Without repeated ids, exchanging the first copy below a parameter is exchanging every copy. -/
theorem replaceAmong?_eq_of {params : List (String × Param)}
    (h : (((params.map Prod.snd).flatMap nodes).map id).Nodup)
    (hp : ∀ p ∈ params.map Prod.snd, p.ids.Nodup → p.replaceDescendant? r =
      if r.id ∈ p.descendantIds then some (p.exchange r) else none) :
    replaceAmong? params r =
      if r.id ∈ ((params.map Prod.snd).flatMap nodes).map id then
        some (params.map fun m => (m.1, m.2.exchange r))
      else none := by
  induction params with
  | nil => rfl
  | cons member rest ih =>
    obtain ⟨key, p⟩ := member
    simp only [List.map_cons, List.flatMap_cons, List.map_append, map_id_nodes] at h
    obtain ⟨hp', hrest, hdisj⟩ := List.nodup_append.mp h
    have ih := ih hrest fun q hq => hp q (List.mem_cons_of_mem _ hq)
    have hfirst := hp p List.mem_cons_self hp'
    -- The walk stops at the first copy. Without repeated ids there is none behind it, so exchanging
    -- every copy does nothing there either.
    have hstay (hr : r.id ∈ p.ids) : rest.map (fun m => (m.1, m.2.exchange r)) = rest := by
      refine Eq.trans (List.map_congr_left fun member hmember => ?_) (List.map_id' _)
      have hmem : member.2 ∈ (rest.map Prod.snd).flatMap nodes :=
        List.mem_flatMap.mpr ⟨member.2, List.mem_map_of_mem hmember, self_mem_nodes _⟩
      rw [exchange_of_notMem (notMem_ids_of_notMem_flatMap (fun hr' => hdisj _ hr _ hr' rfl) hmem)]
    simp only [List.map_cons, List.flatMap_cons, List.map_append, map_id_nodes, List.mem_append]
    rw [replaceAmong?]
    by_cases hid : p.id = r.id
    · have hr : r.id ∈ p.ids := hid ▸ id_mem_ids p
      rw [if_pos hid, if_pos (Or.inl hr), exchange_of_id_eq hid, hstay hr]
    · rw [if_neg hid, hfirst]
      by_cases hr : r.id ∈ p.descendantIds
      · have hr' : r.id ∈ p.ids := List.mem_cons_of_mem _ hr
        rw [if_pos hr, if_pos (Or.inl hr'), hstay hr']
      · have hr' : r.id ∉ p.ids := by
          rw [ids_eq_cons, List.mem_cons]
          exact fun hr' => hr'.elim (fun he => hid he.symm) hr
        rw [if_neg hr, ih, exchange_of_notMem hr']
        simp only [hr', false_or]
        split <;> rfl

/-- Without repeated ids, exchanging the first copy of an id below a parameter is exchanging every
node of that id. -/
theorem replaceDescendant?_eq (h : p.ids.Nodup) :
    p.replaceDescendant? r = if r.id ∈ p.descendantIds then some (p.exchange r) else none := by
  induction p using Param.induction with
  | leaf i name control => rfl
  | group i name params hidden ih =>
    have hparams : (((params.map Prod.snd).flatMap nodes).map id).Nodup :=
      nodup_map_id_flatMap_children h
    rw [replaceDescendant?, replaceAmong?_eq_of hparams ih, descendantIds_eq, children_group]
    split
    · next hr =>
      have hi : i ≠ r.id := by
        rintro rfl
        rw [ids_eq_cons, List.nodup_cons, descendantIds_eq] at h
        exact h.1 hr
      rw [exchange_group_of_ne hi]
      rfl
    · rfl

/-- A parameter without copies of an id stays as it is when that id is exchanged below it. -/
theorem replaceDescendant_eq (h : p.ids.Nodup) (hid : p.id ≠ r.id) :
    p.replaceDescendant r = p.exchange r := by
  rw [replaceDescendant, replaceDescendant?_eq h]
  split
  · rfl
  · next hr =>
    rw [exchange_of_notMem]
    · rfl
    · rw [ids_eq_cons, List.mem_cons]
      exact fun hr' => hr'.elim (fun he => hid he.symm) hr

end Param

end LiveTuner
