import LiveTuner.Proofs.Param.Nodes

/-!
# Forests of definitions

What a node has defined is a list of trees. This file describes the two changes that can happen to
them without any map by id and without copies: a definition takes the place of the tree with its id,
wherever that stands, or joins the others as a new tree; and a value write changes the value of one
node. The registry and the editors are compared with such a forest.

## Main definitions

* `Forest` — the trees, with `Forest.nodes`, `Forest.ids` and `Forest.node?`
* `Forest.define` — a definition takes its place
* `Forest.setValue?` — the value of one node changes
* `Forest.Fits` — a definition brings no id that stands elsewhere in the forest

## Main results

* `Forest.mem_nodes_define` — what the nodes are once a definition has taken its place
* `Forest.nodup_ids_define` — a definition that fits repeats no id
-/

namespace LiveTuner

/-- Definitions, each a tree of its own. -/
abbrev Forest := List Param

namespace Forest

/-- All nodes, tree by tree and depth first. -/
def nodes (f : Forest) : List Param := f.flatMap Param.nodes

/-- The ids of all nodes. -/
def ids (f : Forest) : List ParamId := f.nodes.map Param.id

/-- The tree that stands at an id. -/
def node? (f : Forest) (id : ParamId) : Option Param := f.nodes.find? (·.id = id)

/-- The ids of the tree that stands at an id; none if there is no such tree. -/
def idsAt (f : Forest) (id : ParamId) : List ParamId :=
  match f.node? id with
  | some q => q.ids
  | none => []

/-- The forest with the tree at the id of `r` exchanged for `r`. -/
def exchange (f : Forest) (r : Param) : Forest := f.map (·.exchange r)

/-- A definition takes the place of the tree with its id, or joins the others as a new one. -/
def define (f : Forest) (p : Param) : Forest := if p.id ∈ f.ids then f.exchange p else f ++ [p]

/-- The value of the node of an id changes, if there is one and the value fits it. -/
def setValue? (f : Forest) (id : ParamId) (val : Value) : Option Forest := do
  let p ← f.node? id
  let p ← p.setValue? val
  pure (f.exchange p)

/-- A definition repeats no id, and what is below it is new or was below its id before. -/
def Fits (f : Forest) (p : Param) : Prop :=
  p.ids.Nodup ∧ ∀ id ∈ p.descendantIds, id ∈ f.ids → id ∈ f.idsAt p.id

variable {f : Forest} {p q r x : Param} {id : ParamId}

/-! ### Nodes and ids -/

theorem nodes_append (f g : Forest) : nodes (f ++ g) = f.nodes ++ nodes g := List.flatMap_append

theorem ids_append (f g : Forest) : ids (f ++ g) = f.ids ++ ids g := by
  rw [ids, nodes_append, List.map_append]
  rfl

theorem nodes_singleton (p : Param) : nodes [p] = p.nodes := by simp [nodes]

theorem ids_singleton (p : Param) : ids [p] = p.ids := by
  rw [ids, nodes_singleton, Param.map_id_nodes]

theorem ids_cons (p : Param) (f : Forest) : ids (p :: f) = p.ids ++ f.ids := by
  rw [← ids_singleton, ← ids_append]
  rfl

/-- Without repeated ids, a tree has no id of the trees before it. -/
theorem nodup_ids_append_cons {rest : Forest} (h : (ids (f ++ p :: rest)).Nodup) :
    p.ids.Nodup ∧ ∀ id ∈ p.ids, id ∉ f.ids := by
  rw [ids_append, ids_cons] at h
  obtain ⟨-, hrest, hdisj⟩ := List.nodup_append.mp h
  exact ⟨(List.nodup_append.mp hrest).1, fun id hid hid' =>
    hdisj id hid' id (List.mem_append_left _ hid) rfl⟩

theorem mem_ids_iff : id ∈ f.ids ↔ ∃ q ∈ f.nodes, q.id = id := List.mem_map

theorem mem_ids_of_mem_nodes (h : q ∈ f.nodes) : q.id ∈ f.ids := mem_ids_iff.mpr ⟨q, h, rfl⟩

theorem mem_nodes_of_mem (h : p ∈ f) : p ∈ f.nodes :=
  List.mem_flatMap.mpr ⟨p, h, Param.self_mem_nodes p⟩

theorem isInfix_nodes (h : q ∈ f.nodes) : q.nodes <:+: f.nodes := by
  obtain ⟨p, hp, hq⟩ := List.mem_flatMap.mp h
  obtain ⟨before, after, rfl⟩ := List.append_of_mem hp
  refine (Param.isInfix_nodes hq).trans ⟨nodes before, nodes after, ?_⟩
  simp [nodes]

theorem mem_nodes_trans (hq : q ∈ f.nodes) (hr : r ∈ q.nodes) : r ∈ f.nodes :=
  (isInfix_nodes hq).subset hr

theorem mem_ids_trans (hq : q ∈ f.nodes) (hid : id ∈ q.ids) : id ∈ f.ids := by
  obtain ⟨r, hr, rfl⟩ := Param.mem_ids_iff.mp hid
  exact mem_ids_of_mem_nodes (mem_nodes_trans hq hr)

theorem nodup_ids_of_mem_nodes (h : f.ids.Nodup) (hq : q ∈ f.nodes) : q.ids.Nodup := by
  rw [← Param.map_id_nodes]
  exact h.sublist ((isInfix_nodes hq).sublist.map _)

/-- Without repeated ids, an id belongs to one node only. -/
theorem eq_of_id_eq (h : f.ids.Nodup) (hq : q ∈ f.nodes) (hr : r ∈ f.nodes) (hid : q.id = r.id) :
    q = r := List.inj_on_of_nodup_map h hq hr hid

theorem mem_nodes_of_node?_eq_some (h : f.node? id = some q) : q ∈ f.nodes :=
  List.mem_of_find?_eq_some h

theorem id_eq_of_node?_eq_some (h : f.node? id = some q) : q.id = id := by
  simpa using List.find?_some h

theorem node?_eq_none_iff : f.node? id = none ↔ id ∉ f.ids := by
  simp [node?, mem_ids_iff]

/-- Without repeated ids, any node is the tree at its id. -/
theorem node?_eq_some_iff (h : f.ids.Nodup) : f.node? id = some q ↔ q ∈ f.nodes ∧ q.id = id := by
  constructor
  · exact fun hq => ⟨mem_nodes_of_node?_eq_some hq, id_eq_of_node?_eq_some hq⟩
  · rintro ⟨hq, rfl⟩
    cases hr : f.node? q.id with
    | none => exact absurd (mem_ids_of_mem_nodes hq) (node?_eq_none_iff.mp hr)
    | some r =>
      rw [eq_of_id_eq h (mem_nodes_of_node?_eq_some hr) hq (id_eq_of_node?_eq_some hr)]

theorem node?_id (h : f.ids.Nodup) (hq : q ∈ f.nodes) : f.node? q.id = some q :=
  (node?_eq_some_iff h).mpr ⟨hq, rfl⟩

theorem idsAt_of_notMem (h : id ∉ f.ids) : f.idsAt id = [] := by
  rw [idsAt, node?_eq_none_iff.mpr h]

theorem idsAt_id (h : f.ids.Nodup) (hq : q ∈ f.nodes) : f.idsAt q.id = q.ids := by
  rw [idsAt, node?_id h hq]

/-! ### A definition takes its place -/

theorem exchangedWithin_nodes (h : f.ids.Nodup) (hq : q ∈ f.nodes) (hid : q.id = r.id) :
    Param.ExchangedWithin f.nodes (f.exchange r).nodes q r :=
  Param.exchangedWithin_flatMap h hq hid fun _ _ hp hqp => Param.exchangedWithin_nodes hp hqp hid

/-- Around the tree at an id there is no node of that tree. -/
theorem mem_around_iff {before after : List Param} (h : f.ids.Nodup)
    (hf : f.nodes = before ++ q.nodes ++ after) {y : Param} :
    y ∈ before ∨ y ∈ after ↔ y ∈ f.nodes ∧ y.id ∉ q.ids := by
  rw [ids, hf, List.map_append, List.map_append, Param.map_id_nodes, List.append_assoc] at h
  obtain ⟨-, hrest, hbefore⟩ := List.nodup_append.mp h
  obtain ⟨-, -, hafter⟩ := List.nodup_append.mp hrest
  simp only [hf, List.mem_append]
  constructor
  · rintro (hy | hy)
    · exact ⟨Or.inl (Or.inl hy), fun hq =>
        hbefore _ (List.mem_map_of_mem hy) _ (List.mem_append_left _ hq) rfl⟩
    · exact ⟨Or.inr hy, fun hq => hafter _ hq _ (List.mem_map_of_mem hy) rfl⟩
  · rintro ⟨(hy | hy) | hy, hq⟩
    · exact Or.inl hy
    · exact absurd (Param.mem_ids_of_mem_nodes hy) hq
    · exact Or.inr hy

/-- The nodes once a definition has taken its place: those of the definition, and those that stood
outside of the tree at its id, each with its copy of the definition exchanged. -/
theorem mem_nodes_define (h : f.ids.Nodup) :
    x ∈ (f.define p).nodes ↔
      x ∈ p.nodes ∨ ∃ y ∈ f.nodes, y.id ∉ f.idsAt p.id ∧ y.exchange p = x := by
  by_cases hp : p.id ∈ f.ids
  · obtain ⟨q, hq, hid⟩ := mem_ids_iff.mp hp
    obtain ⟨before, after, hbefore, hafter⟩ := exchangedWithin_nodes h hq hid
    -- Around the old tree, every node stays in place with its own copy exchanged.
    have haround : (x ∈ before.map (·.exchange p) ∨ x ∈ after.map (·.exchange p)) ↔
        ∃ y ∈ f.nodes, y.id ∉ q.ids ∧ y.exchange p = x := by
      simp only [List.mem_map, ← exists_or, ← or_and_right, mem_around_iff h hbefore, and_assoc]
    rw [define, if_pos hp, hafter, ← hid, idsAt_id h hq, ← haround, List.mem_append,
      List.mem_append]
    tauto
  · have hstay : ∀ y ∈ f.nodes, y.exchange p = y := fun y hy =>
      Param.exchange_of_notMem fun hpy => hp (mem_ids_trans hy hpy)
    rw [define, if_neg hp, nodes_append, nodes_singleton, idsAt_of_notMem hp, List.mem_append,
      or_comm]
    refine or_congr_right ⟨fun hx => ⟨x, hx, List.not_mem_nil, hstay x hx⟩, ?_⟩
    rintro ⟨y, hy, -, rfl⟩
    rwa [hstay y hy]

theorem mem_ids_define (h : f.ids.Nodup) :
    id ∈ (f.define p).ids ↔ id ∈ p.ids ∨ id ∈ f.ids ∧ id ∉ f.idsAt p.id := by
  simp only [mem_ids_iff, mem_nodes_define h, Param.mem_ids_iff]
  constructor
  · rintro ⟨x, hx | ⟨y, hy, hout, rfl⟩, rfl⟩
    · exact Or.inl ⟨x, hx, rfl⟩
    · rw [Param.exchange_id]
      exact Or.inr ⟨⟨y, hy, rfl⟩, hout⟩
  · rintro (⟨x, hx, rfl⟩ | ⟨⟨y, hy, rfl⟩, hout⟩)
    · exact ⟨x, Or.inl hx, rfl⟩
    · exact ⟨y.exchange p, Or.inr ⟨y, hy, hout, rfl⟩, Param.exchange_id y p⟩

/-- A definition that fits repeats no id in its new place. -/
theorem nodup_ids_define (h : f.ids.Nodup) (hp : f.Fits p) : (f.define p).ids.Nodup := by
  by_cases hmem : p.id ∈ f.ids
  · obtain ⟨q, hq, hid⟩ := mem_ids_iff.mp hmem
    obtain ⟨before, after, hbefore, hafter⟩ := exchangedWithin_nodes h hq hid
    have hat : f.idsAt p.id = q.ids := hid ▸ idsAt_id h hq
    -- What surrounds the old tree keeps its ids, and none of them is below the new definition.
    have hkeep : ∀ ns : List Param, (ns.map (·.exchange p)).map Param.id = ns.map Param.id := by
      intro ns
      simp
    have hnew : ∀ y ∈ f.nodes, y.id ∉ q.ids → y.id ∉ p.ids := by
      intro y hy hout hyp
      rcases List.mem_cons.mp hyp with hyp | hyp
      · exact hout (hyp.trans hid.symm ▸ Param.id_mem_ids q)
      · exact hout (hat ▸ hp.2 _ hyp (mem_ids_of_mem_nodes hy))
    have haround := fun y => @mem_around_iff f q before after h hbefore y
    rw [define, if_pos hmem, ids, hafter, List.map_append, List.map_append, hkeep, hkeep,
      Param.map_id_nodes]
    rw [ids, hbefore, List.map_append, List.map_append] at h
    have hlists : (before.map Param.id ++ after.map Param.id).Nodup :=
      h.sublist ((List.sublist_append_left _ _).append (List.Sublist.refl _))
    rw [List.append_assoc]
    refine ((List.perm_append_comm_assoc _ _ _).nodup_iff).mpr (List.nodup_append.mpr
      ⟨hp.1, hlists, ?_⟩)
    rintro i hi j hj rfl
    rw [← List.map_append] at hj
    obtain ⟨y, hy, rfl⟩ := List.mem_map.mp hj
    obtain ⟨hyf, hout⟩ := (haround y).mp (List.mem_append.mp hy)
    exact hnew y hyf hout hi
  · rw [define, if_neg hmem, ids_append, ids_singleton]
    refine List.nodup_append.mpr ⟨h, hp.1, ?_⟩
    rintro i hi j hj rfl
    rcases List.mem_cons.mp hj with rfl | hj
    · exact hmem hi
    · have := hp.2 i hj hi
      rw [idsAt_of_notMem hmem] at this
      exact List.not_mem_nil this

/-! ### Values -/

/-- Only a parameter that is no group takes a value, and it keeps its id. -/
theorem setValue?_eq_some {val : Value} (h : p.setValue? val = some q) :
    q.id = p.id ∧ q.children = [] := by
  cases p with
  | leaf i name control =>
    obtain ⟨c, -, rfl⟩ := Option.map_eq_some_iff.mp h
    exact ⟨rfl, rfl⟩
  | group i name params hidden => exact absurd h (by simp [Param.setValue?])

theorem fits_of_children_eq_nil (h : p.children = []) : f.Fits p := by
  have hbelow : p.descendantIds = [] := by simp [Param.descendantIds_eq, h]
  refine ⟨?_, fun i hi => ?_⟩
  · rw [Param.ids_eq_cons, hbelow]
    exact List.nodup_singleton _
  · rw [hbelow] at hi
    exact absurd hi List.not_mem_nil

/-- A value write is a definition taking its place: that of the node with the new value. -/
theorem setValue?_eq_define {val : Value} {p' : Param} (hp : f.node? id = some p)
    (h : p.setValue? val = some p') : f.setValue? id val = some (f.define p') := by
  have hid : p'.id = id :=
    (setValue?_eq_some h).1.trans (id_eq_of_node?_eq_some hp)
  have hmem : p'.id ∈ f.ids :=
    mem_ids_iff.mpr ⟨p, mem_nodes_of_node?_eq_some hp, (setValue?_eq_some h).1.symm⟩
  simp [setValue?, hp, h, define, hmem]

end Forest

end LiveTuner
