import LiveTuner.Editor.Basic
import LiveTuner.Proofs.Enclosure

/-!
# Panels

On the screen an id stands in the panel of a group. That group need not be the one it is a member
of: where an optional value lends its place to its parameters, these stand in the panel of the group
above it, and the value itself stands nowhere.

## Main definitions

* `Param.panel` — the parameters that the panel of a group shows
* `Param.Placed` — mounting a definition puts a parameter into the panel of a group
* `Param.asked` — the ids that a panel asks for, each with a label or without

## Main results

* `Param.mem_children_of_mem_panel` — a panel shows members, or members of a member without a place
* `Param.Placed.unique` — without repeated ids, nothing is placed twice
* `Param.Placed.id_ne_of_notMem` — an optional value that lends its place is not placed
* `Param.asked_exchange` — what a panel asks for depends on the faces of the members
-/

namespace LiveTuner

open Relation

namespace Param

variable {p q b c u : Param} {par g g' : Option ParamId} {i : ParamId}

/-- The parameters that the panel of a parameter shows. -/
def panel (p : Param) : List Param := (panelMounts p).map (·.param)

theorem visible_sublist (p : Param) : p.visible.Sublist p.children := by
  cases p with
  | leaf i name control => exact List.Sublist.refl _
  | group i name params hidden => exact List.filter_sublist.map Prod.snd

theorem nodes_flatMap_sublist {f f' : Forest} (h : f.Sublist f') :
    (f.flatMap nodes).Sublist (f'.flatMap nodes) := by
  induction h with
  | slnil => exact List.Sublist.refl _
  | cons p _ ih => exact ih.trans (List.sublist_append_right _ _)
  | cons_cons p _ ih => exact (List.Sublist.refl _).append ih

/-- A panel shows the parameters of its group that are shown, or a flag and what stands for an
optional value. -/
theorem panel_cases (p : Param) :
    p.panel = p.visible ∨
    ∃ flag u, p.visible = [flag, u] ∧ p.panel = flag :: u.visible := by
  cases p with
  | leaf i name control => exact Or.inl rfl
  | group i name params hidden =>
    rw [panel, panelMounts, mountsOfVisible]
    generalize hv : (group i name params hidden).visible = visible
    -- The panel depends on whether exactly two parameters are shown, under the two names.
    match visible with
    | [] => exact Or.inl rfl
    | [x] => exact Or.inl rfl
    | [flag, u] =>
      rw [optionalPair?]
      by_cases hname : flag.name = enabledName ∧ u.name = enabledValueName
      · rw [if_pos hname]
        cases u with
        | leaf j name' control => exact Or.inl rfl
        | group j name' params' hidden' =>
          refine Or.inr ⟨flag, _, rfl, ?_⟩
          simp [Function.comp_def]
      · rw [if_neg hname]
        exact Or.inl rfl
    | x :: y :: z :: rest => exact Or.inl (by simp [optionalPair?, Function.comp_def])

/-- What a panel shows stands below its group, each in a place of its own. -/
theorem panel_nodes_sublist (p : Param) :
    (p.panel.flatMap nodes).Sublist (p.children.flatMap nodes) := by
  have hvisible := nodes_flatMap_sublist p.visible_sublist
  rcases p.panel_cases with hpanel | ⟨flag, u, hv, hpanel⟩
  · rwa [hpanel]
  · refine List.Sublist.trans ?_ hvisible
    rw [hpanel, hv, List.flatMap_cons, List.flatMap_cons, List.flatMap_singleton, u.nodes_eq]
    refine (List.Sublist.refl _).append (List.Sublist.cons _ ?_)
    exact nodes_flatMap_sublist u.visible_sublist

theorem panel_ids_sublist (p : Param) : (Forest.ids p.panel).Sublist p.descendantIds := by
  rw [descendantIds_eq]
  exact p.panel_nodes_sublist.map id

theorem mem_nodes_of_mem_panel (h : c ∈ p.panel) : c ∈ p.nodes := by
  rw [nodes_eq]
  exact List.mem_cons_of_mem _ (p.panel_nodes_sublist.subset (Forest.mem_nodes_of_mem h))

theorem nodes_subset_of_mem_panel {ns : List Param} (hns : p.nodes ⊆ ns) (h : c ∈ p.panel) :
    c.nodes ⊆ ns := fun _ hx => hns (mem_nodes_trans (mem_nodes_of_mem_panel h) hx)

theorem id_mem_descendantIds_of_mem_panel (h : c ∈ p.panel) : c.id ∈ p.descendantIds :=
  p.panel_ids_sublist.subset (Forest.mem_ids_of_mem_nodes (Forest.mem_nodes_of_mem h))

theorem nodup_ids_panel (h : p.ids.Nodup) : (Forest.ids p.panel).Nodup :=
  h.of_cons.sublist p.panel_ids_sublist

theorem nodup_ids_of_mem_panel (h : p.ids.Nodup) (hc : c ∈ p.panel) : c.ids.Nodup :=
  nodup_ids_of_mem_nodes h (mem_nodes_of_mem_panel hc)

/-- Without repeated ids, the parameters in a panel share no id. -/
theorem eq_of_mem_ids_of_mem_panel (h : p.ids.Nodup) (hc : c ∈ p.panel) (hb : b ∈ p.panel)
    (hic : i ∈ c.ids) (hib : i ∈ b.ids) : c = b := by
  have hnodup : (p.panel.flatMap ids).Nodup := by
    have := nodup_ids_panel h
    rwa [Forest.ids, Forest.nodes, List.map_flatMap, funext map_id_nodes] at this
  exact eq_of_mem_of_nodup_flatMap hnodup hc hb hic hib

/-- A panel shows members of its group, or members of a member that has no place there itself. -/
theorem mem_children_of_mem_panel (h : p.ids.Nodup) (hc : c ∈ p.panel) :
    c ∈ p.children ∨ ∃ u ∈ p.children, c ∈ u.children ∧ u.id ∉ Forest.ids p.panel := by
  rcases p.panel_cases with hpanel | ⟨flag, u, hv, hpanel⟩
  · exact Or.inl (p.visible_sublist.subset (hpanel ▸ hc))
  · rw [hpanel] at hc ⊢
    have hsub : [flag, u].Sublist p.children := hv ▸ p.visible_sublist
    rcases List.mem_cons.mp hc with rfl | hc
    · exact Or.inl (hsub.subset List.mem_cons_self)
    · refine Or.inr ⟨u, hsub.subset (by simp), u.visible_sublist.subset hc, fun hu => ?_⟩
      -- The id of `u` is not among those of the flag, and not below `u` itself.
      have hnodup : (Forest.ids [flag, u]).Nodup :=
        (nodup_map_id_flatMap_children h).sublist ((nodes_flatMap_sublist hsub).map id)
      simp only [Forest.ids, Forest.nodes, List.flatMap_cons, List.flatMap_nil, List.append_nil,
        List.map_append, map_id_nodes] at hnodup hu
      obtain ⟨-, hunodup, hdisj⟩ := List.nodup_append.mp hnodup
      rcases List.mem_append.mp hu with hu | hu
      · exact hdisj _ hu _ (id_mem_ids u) rfl
      · have hbelow : u.id ∈ u.descendantIds := by
          rw [descendantIds_eq]
          exact ((nodes_flatMap_sublist u.visible_sublist).map id).subset hu
        exact (List.nodup_cons.mp hunodup).1 hbelow

/-- So the panel stands above what it shows, at the same group or one group further up. -/
theorem transGen_under_of_mem_panel {ns : List Param} (hns : p.nodes ⊆ ns) (hc : c ∈ p.panel) :
    TransGen (Under ns) c.id p.id :=
  Forest.transGen_under_of_mem hns (id_mem_descendantIds_of_mem_panel hc)

theorem height_le_of_mem {params : List (String × Param)} (h : c ∈ params.map Prod.snd) :
    c.height ≤ heightAmong params := by
  induction params with
  | nil => exact absurd h List.not_mem_nil
  | cons member rest ih =>
    rcases List.mem_cons.mp h with rfl | h
    · exact Nat.le_max_left _ _
    · exact Nat.le_trans (ih h) (Nat.le_max_right _ _)

theorem height_lt_of_mem_children (h : c ∈ p.children) : c.height < p.height := by
  cases p with
  | leaf i name control => exact absurd h List.not_mem_nil
  | group i name params hidden => exact Nat.lt_succ_of_le (height_le_of_mem h)

theorem height_lt_of_mem_panel (h : c ∈ p.panel) : c.height < p.height := by
  rcases p.panel_cases with hpanel | ⟨flag, u, hv, hpanel⟩
  · exact height_lt_of_mem_children (p.visible_sublist.subset (hpanel ▸ h))
  · have hsub : [flag, u].Sublist p.children := hv ▸ p.visible_sublist
    rw [hpanel] at h
    rcases List.mem_cons.mp h with rfl | h
    · exact height_lt_of_mem_children (hsub.subset List.mem_cons_self)
    · exact Nat.lt_trans (height_lt_of_mem_children (u.visible_sublist.subset h))
        (height_lt_of_mem_children (hsub.subset (by simp)))

/-! ### What a mount places -/

/-- Mounting `p` below `par` puts the parameter into the panel of the group. -/
inductive Placed (p : Param) (par : Option ParamId) : Param → Option ParamId → Prop where
  /-- The definition itself stands where it is mounted. -/
  | self : Placed p par p par
  /-- What the panel of a placed group shows is placed there. -/
  | panel {b q : Param} {g : Option ParamId} (hb : Placed p par b g) (hq : q ∈ b.panel) :
    Placed p par q (some b.id)

/-- What is placed is the definition or is placed by one that its panel shows. -/
theorem placed_iff :
    Placed p par q g ↔ q = p ∧ g = par ∨ ∃ c ∈ p.panel, Placed c (some p.id) q g := by
  constructor
  · intro h
    induction h with
    | self => exact Or.inl ⟨rfl, rfl⟩
    | @panel b q g hb hq ih =>
      rcases ih with ⟨rfl, rfl⟩ | ⟨c, hc, hplaced⟩
      · exact Or.inr ⟨q, hq, .self⟩
      · exact Or.inr ⟨c, hc, hplaced.panel hq⟩
  · rintro (⟨rfl, rfl⟩ | ⟨c, hc, hplaced⟩)
    · exact .self
    · induction hplaced with
      | self => exact .panel .self hc
      | panel _ hq ih => exact ih.panel hq

theorem Placed.mem_nodes (h : Placed p par q g) : q ∈ p.nodes := by
  induction h with
  | self => exact self_mem_nodes p
  | panel _ hq ih => exact mem_nodes_trans ih (mem_nodes_of_mem_panel hq)

theorem Placed.id_mem_ids (h : Placed p par q g) : q.id ∈ p.ids := mem_ids_of_mem_nodes h.mem_nodes

/-- A member without a place in the panel of a placed group, like an optional value that lends its
place to its parameters, is not placed anywhere. -/
theorem Placed.id_ne_of_notMem (h : p.ids.Nodup) (hb : Placed p par b g) (hu : u ∈ b.children)
    (hout : u.id ∉ Forest.ids b.panel) (hq : Placed p par q g') : q.id ≠ u.id := by
  -- Both are placed by the same parameter in the panel, as it has the id of `u` below it.
  induction hn : p.height using Nat.strongRecOn generalizing p par with
  | ind n ih =>
    intro hid
    rcases placed_iff.mp hb with ⟨rfl, rfl⟩ | ⟨c, hc, hbc⟩
    · rcases placed_iff.mp hq with ⟨rfl, -⟩ | ⟨c, hc, hqc⟩
      · have hbelow : u.id ∈ q.descendantIds :=
          mem_descendantIds_iff.mpr ⟨u, hu, Param.id_mem_ids u⟩
        exact (List.nodup_cons.mp h).1 (hid ▸ hbelow)
      · exact hout (hid ▸ Forest.mem_ids_trans (Forest.mem_nodes_of_mem hc) hqc.id_mem_ids)
    · have huc : u.id ∈ c.ids :=
        mem_ids_of_mem_nodes (mem_nodes_trans hbc.mem_nodes (mem_nodes_of_mem_children hu))
      rcases placed_iff.mp hq with ⟨rfl, -⟩ | ⟨c', hc', hqc⟩
      · have hbelow : u.id ∈ q.descendantIds :=
          q.panel_ids_sublist.subset (Forest.mem_ids_trans (Forest.mem_nodes_of_mem hc) huc)
        exact (List.nodup_cons.mp h).1 (hid ▸ hbelow)
      · obtain rfl := eq_of_mem_ids_of_mem_panel h hc hc' huc (hid ▸ hqc.id_mem_ids)
        exact ih _ (hn ▸ height_lt_of_mem_panel hc) (nodup_ids_of_mem_panel h hc) hbc hqc rfl hid

/-- Without repeated ids, nothing is placed in two panels. -/
theorem Placed.unique (h : p.ids.Nodup) (hq : Placed p par q g) (hb : Placed p par b g')
    (hid : q.id = b.id) : q = b ∧ g = g' := by
  refine ⟨eq_of_id_eq h hq.mem_nodes hb.mem_nodes hid, ?_⟩
  induction hn : p.height using Nat.strongRecOn generalizing p par with
  | ind n ih =>
    -- What a panel places stands below its group, so it is not the definition once more.
    have hself : ∀ {x : Param} {k : Option ParamId}, (∃ c ∈ p.panel, Placed c (some p.id) x k) →
        x.id ≠ p.id := by
      rintro x k ⟨c, hc, hx⟩ he
      have hbelow : x.id ∈ p.descendantIds :=
        p.panel_ids_sublist.subset (Forest.mem_ids_trans (Forest.mem_nodes_of_mem hc) hx.id_mem_ids)
      exact (List.nodup_cons.mp h).1 (he ▸ hbelow)
    rcases placed_iff.mp hq with ⟨rfl, rfl⟩ | hq'
    · rcases placed_iff.mp hb with ⟨-, rfl⟩ | hb'
      · rfl
      · exact absurd hid.symm (hself hb')
    · rcases placed_iff.mp hb with ⟨rfl, -⟩ | hb'
      · exact absurd hid (hself hq')
      · obtain ⟨c, hc, hqc⟩ := hq'
        obtain ⟨c', hc', hbc⟩ := hb'
        obtain rfl := eq_of_mem_ids_of_mem_panel h hc hc' hqc.id_mem_ids (hid ▸ hbc.id_mem_ids)
        exact ih _ (hn ▸ height_lt_of_mem_panel hc) (nodup_ids_of_mem_panel h hc) hqc hbc rfl

end Param

/-! ### What a panel asks for -/

/-- What a mount asks for: an editor of an id, with a label or without. -/
def Mount.ask (m : Mount) : ParamId × Bool := (m.param.id, m.labelled)

namespace Param

variable {p r : Param}

/-- What the panel of a parameter asks for: editors of some ids, each with a label or without. -/
def asked (p : Param) : List (ParamId × Bool) := (panelMounts p).map Mount.ask

/-- What the panel of the group above asks for in place of an optional value. -/
def standIns : Param → List (ParamId × Bool)
  | leaf i _ _ => [(i, false)]
  | group i name params hidden => (group i name params hidden).visible.map fun q => (q.id, true)

/-- All that the panel of the group above depends on in a parameter. -/
def face (p : Param) : ParamId × String × List (ParamId × Bool) := (p.id, p.name, p.standIns)

theorem map_ask_mountsOfVisible_pair (flag value : Param) :
    (mountsOfVisible [flag, value]).map Mount.ask =
      if flag.name = enabledName ∧ value.name = enabledValueName then
        (flag.id, true) :: value.standIns
      else [(flag.id, true), (value.id, true)] := by
  rw [mountsOfVisible, optionalPair?]
  by_cases hname : flag.name = enabledName ∧ value.name = enabledValueName
  · rw [if_pos hname, if_pos hname]
    cases value with
    | leaf i name control => rfl
    | group i name params hidden => simp [standIns, Mount.ask, Function.comp_def]
  · rw [if_neg hname, if_neg hname]
    rfl

theorem map_ask_mountsOfVisible_of_length {visible : List Param} (h : visible.length ≠ 2) :
    (mountsOfVisible visible).map Mount.ask = visible.map fun q => (q.id, true) := by
  have hnone : optionalPair? visible = none := by
    match visible with
    | [] => rfl
    | [_] => rfl
    | [_, _] => exact absurd rfl h
    | _ :: _ :: _ :: _ => rfl
  simp [mountsOfVisible, hnone, Mount.ask, Function.comp_def]

/-- What the panel of a group asks for depends on the faces of what the group shows. -/
theorem map_ask_mountsOfVisible_congr {visible visible' : List Param}
    (h : visible.map face = visible'.map face) :
    (mountsOfVisible visible).map Mount.ask = (mountsOfVisible visible').map Mount.ask := by
  have hlength : visible.length = visible'.length := by simpa using congrArg List.length h
  -- Names and what stands in for a value count only where two parameters are shown.
  by_cases htwo : visible.length = 2
  · obtain ⟨flag, value, rfl⟩ := List.length_eq_two.mp htwo
    obtain ⟨flag', value', rfl⟩ := List.length_eq_two.mp (hlength.symm.trans htwo)
    simp only [List.map_cons, List.map_nil, List.cons.injEq, face, Prod.mk.injEq] at h
    obtain ⟨⟨hid, hname, -⟩, ⟨hid', hname', hstand⟩, -⟩ := h
    rw [map_ask_mountsOfVisible_pair, map_ask_mountsOfVisible_pair, hid, hname, hid', hname',
      hstand]
  · rw [map_ask_mountsOfVisible_of_length htwo,
      map_ask_mountsOfVisible_of_length (hlength ▸ htwo)]
    simpa [Function.comp_def, face] using congrArg (List.map fun x => (x.1, true)) h

theorem visible_exchange_of_ne (h : p.id ≠ r.id) :
    (p.exchange r).visible = p.visible.map (·.exchange r) := by
  cases p with
  | leaf i name control =>
    rw [id_leaf] at h
    rw [exchange_leaf_of_ne h]
    rfl
  | group i name params hidden =>
    rw [id_group] at h
    rw [exchange_group_of_ne h]
    simp [visible, List.filter_map, Function.comp_def]

theorem standIns_exchange_of_ne (h : p.id ≠ r.id) : (p.exchange r).standIns = p.standIns := by
  have hvisible := visible_exchange_of_ne h
  cases p with
  | leaf i name control =>
    rw [id_leaf] at h
    rw [exchange_leaf_of_ne h]
  | group i name params hidden =>
    rw [id_group] at h
    rw [exchange_group_of_ne h] at hvisible ⊢
    simp [standIns, hvisible, Function.comp_def]

/-- The exchange of a parameter of another id changes nothing in the face. -/
theorem face_exchange_of_ne (h : p.id ≠ r.id) : (p.exchange r).face = p.face := by
  have hname : (p.exchange r).name = p.name := by
    cases p with
    | leaf i name control =>
      rw [id_leaf] at h
      rw [exchange_leaf_of_ne h]
    | group i name params hidden =>
      rw [id_group] at h
      rw [exchange_group_of_ne h]
      rfl
  rw [face, face, exchange_id, hname, standIns_exchange_of_ne h]

/-- An exchange that leaves the faces of the members changes nothing in what the panel asks for. -/
theorem asked_exchange (hp : p.id ≠ r.id) (h : ∀ c ∈ p.children, c.id = r.id → r.face = c.face) :
    (p.exchange r).asked = p.asked := by
  have hmember : ∀ c ∈ p.visible, (c.exchange r).face = c.face := by
    intro c hc
    by_cases hid : c.id = r.id
    · rw [exchange_of_id_eq hid, h c (p.visible_sublist.subset hc) hid]
    · exact face_exchange_of_ne hid
  have hfaces : (p.exchange r).visible.map face = p.visible.map face := by
    rw [visible_exchange_of_ne hp, List.map_map]
    exact List.map_congr_left hmember
  cases p with
  | leaf i name control =>
    rw [id_leaf] at hp
    rw [exchange_leaf_of_ne hp]
  | group i name params hidden =>
    rw [id_group] at hp
    rw [exchange_group_of_ne hp] at hfaces ⊢
    exact map_ask_mountsOfVisible_congr hfaces

end Param

end LiveTuner
