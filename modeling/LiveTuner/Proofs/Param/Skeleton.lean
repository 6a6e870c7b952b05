import LiveTuner.Proofs.Param.Panel

/-!
# Skeletons

The skeleton of a parameter is what is left without values and settings: ids, names, kinds,
attributes in their order, and which of them are hidden. It decides which ids a parameter has, which
group each is a member of and in which panel it stands. So as long as definitions come in whose
skeletons are already there, nothing moves on the screen.

## Main definitions

* `Param.skeleton`, `Forest.skeleton` — a parameter, and a forest, without values and settings

## Main results

* `Param.panelMounts_skeleton` — the skeleton decides what a panel shows
* `Forest.skeleton_define` — a definition of a skeleton that is already there changes no skeleton
* `Forest.keeps_of_mem_skeleton` — and it keeps every id in its group
-/

namespace LiveTuner

/-- A control of the same kind, without value and settings. -/
def Control.blank : Control → Control
  | choice _ => choice ⟨.null, []⟩
  | scalar _ => scalar ⟨.zero, .zero, .zero, false, none, false⟩
  | vector _ => vector ⟨[], [], [], false, none, false⟩
  | flag _ => flag false
  | text _ => text ""
  | unresolved .. => unresolved .maxPerIndex (.bare default "" .null)

theorem Control.kind_ne_group (c : Control) : c.kind ≠ .group := by
  cases c <;> exact fun h => nomatch h

theorem Control.kind_blank (c : Control) : c.blank.kind = c.kind := by
  cases c <;> rfl

/-- Controls of the same kind are blank alike. -/
theorem Control.blank_eq_iff {c c' : Control} : c.blank = c'.blank ↔ c.kind = c'.kind := by
  constructor
  · intro h
    rw [← c.kind_blank, h, c'.kind_blank]
  · cases c <;> cases c' <;> first | exact fun _ => rfl | exact fun h => nomatch h

namespace Param

mutual

/-- The parameter without values and settings. -/
def skeleton : Param → Param
  | leaf id name control => leaf id name control.blank
  | group id name params hidden => group id name (skeletonAmong params) hidden

/-- Parameters under attributes without values and settings. -/
def skeletonAmong : List (String × Param) → List (String × Param)
  | [] => []
  | (key, p) :: rest => (key, skeleton p) :: skeletonAmong rest

end

variable {p q r : Param}

theorem skeletonAmong_eq (params : List (String × Param)) :
    skeletonAmong params = params.map fun m => (m.1, m.2.skeleton) := by
  induction params with
  | nil => rfl
  | cons member rest ih => simp [skeletonAmong, ih]

@[simp] theorem id_skeleton (p : Param) : p.skeleton.id = p.id := by
  cases p <;> rfl

theorem skeleton_leaf_of_kind_eq {c c' : Control} (h : c.kind = c'.kind) (i : ParamId)
    (name : String) : (leaf i name c).skeleton = (leaf i name c').skeleton := by
  rw [skeleton, skeleton, Control.blank_eq_iff.mpr h]

theorem id_eq_of_skeleton_eq (h : p.skeleton = q.skeleton) : p.id = q.id := by
  rw [← p.id_skeleton, h, q.id_skeleton]

@[simp] theorem name_skeleton (p : Param) : p.skeleton.name = p.name := by
  cases p <;> rfl

theorem kind_eq_of_skeleton_eq (h : p.skeleton = q.skeleton) : p.kind = q.kind := by
  have hkind : ∀ x : Param, x.skeleton.kind = x.kind := by
    intro x
    cases x with
    | leaf i name control => exact control.kind_blank
    | group i name params hidden => rfl
  rw [← hkind p, h, hkind q]

theorem children_skeleton (p : Param) : p.skeleton.children = p.children.map skeleton := by
  cases p with
  | leaf i name control => rfl
  | group i name params hidden => simp [skeleton, skeletonAmong_eq, Function.comp_def]

theorem nodes_skeleton (p : Param) : p.skeleton.nodes = p.nodes.map skeleton := by
  induction p using Param.induction with
  | leaf i name control => rfl
  | group i name params hidden ih =>
    rw [nodes_eq, nodes_eq (group i name params hidden), children_skeleton, List.map_cons,
      List.flatMap_map, List.map_flatMap]
    congr 1
    exact List.flatMap_congr ih

theorem ids_skeleton (p : Param) : p.skeleton.ids = p.ids := by
  rw [← map_id_nodes, ← map_id_nodes, nodes_skeleton, List.map_map]
  exact List.map_congr_left fun q _ => id_skeleton q

theorem ids_eq_of_skeleton_eq (h : p.skeleton = q.skeleton) : p.ids = q.ids := by
  rw [← p.ids_skeleton, h, q.ids_skeleton]

/-! ### Comparing -/

mutual

/-- Whether two parameters have the same skeleton. -/
def sameSkeleton (p q : Param) : Bool :=
  match p, q with
  | leaf id name control, leaf id' name' control' =>
    id == id' && name == name' && control.kind == control'.kind
  | group id name params hidden, group id' name' params' hidden' =>
    id == id' && name == name' && sameSkeletons params params' && hidden == hidden'
  | _, _ => false

/-- Whether two lists have the same attributes, and under each the same skeleton. -/
def sameSkeletons (params params' : List (String × Param)) : Bool :=
  match params, params' with
  | [], [] => true
  | (key, p) :: rest, (key', q) :: rest' =>
    key == key' && sameSkeleton p q && sameSkeletons rest rest'
  | _, _ => false

end

theorem sameSkeletons_iff_of {params : List (String × Param)}
    (h : ∀ p ∈ params.map Prod.snd, ∀ q, sameSkeleton p q = true ↔ p.skeleton = q.skeleton)
    (params' : List (String × Param)) :
    sameSkeletons params params' = true ↔ skeletonAmong params = skeletonAmong params' := by
  induction params generalizing params' with
  | nil => cases params' <;> simp [sameSkeletons, skeletonAmong]
  | cons member rest ih =>
    cases params' with
    | nil => simp [sameSkeletons, skeletonAmong]
    | cons member' rest' =>
      have hhead := h member.2 (by simp) member'.2
      have hrest := ih (fun p hp => h p (by
        rw [List.map_cons]
        exact List.mem_cons_of_mem _ hp)) rest'
      simp [sameSkeletons, skeletonAmong, hhead, hrest]

/-- Ids, names, kinds, attributes in their order and what is hidden make the skeleton. -/
theorem sameSkeleton_iff (p q : Param) : sameSkeleton p q = true ↔ p.skeleton = q.skeleton := by
  induction p using Param.induction generalizing q with
  | leaf i name control =>
    cases q with
    | leaf j name' control' =>
      simp [sameSkeleton, skeleton, Control.blank_eq_iff, and_assoc]
    | group j name' params' hidden' => simp [sameSkeleton, skeleton]
  | group i name params hidden ih =>
    cases q with
    | leaf j name' control' => simp [sameSkeleton, skeleton]
    | group j name' params' hidden' =>
      simp [sameSkeleton, skeleton, sameSkeletons_iff_of ih, and_assoc]

instance (p q : Param) : Decidable (p.skeleton = q.skeleton) :=
  decidable_of_iff _ (sameSkeleton_iff p q)

/-! ### Panels -/

theorem visible_skeleton (p : Param) : p.skeleton.visible = p.visible.map skeleton := by
  cases p with
  | leaf i name control => rfl
  | group i name params hidden =>
    simp only [skeleton, skeletonAmong_eq, visible, List.filter_map, List.map_map]
    rfl

theorem optionalPair?_map_skeleton (visible : List Param) :
    optionalPair? (visible.map skeleton) =
      (optionalPair? visible).map fun pair => (pair.1.skeleton, pair.2.skeleton) := by
  match visible with
  | [] => rfl
  | [_] => rfl
  | [flag, value] =>
    simp only [List.map_cons, List.map_nil, optionalPair?, name_skeleton]
    split <;> rfl
  | _ :: _ :: _ :: _ => rfl

/-- The skeleton decides what belongs into the panel, and with which labels. -/
theorem panelMounts_skeleton (p : Param) :
    panelMounts p.skeleton = (panelMounts p).map fun m => ⟨m.param.skeleton, m.labelled⟩ := by
  cases p with
  | leaf i name control => rfl
  | group i name params hidden =>
    have hvisible := visible_skeleton (group i name params hidden)
    rw [skeleton] at *
    rw [panelMounts, panelMounts, hvisible, mountsOfVisible, mountsOfVisible,
      optionalPair?_map_skeleton]
    cases optionalPair? (group i name params hidden).visible with
    | none => simp [Function.comp_def]
    | some pair =>
      obtain ⟨flag, value⟩ := pair
      cases value with
      | leaf j name' control => rfl
      | group j name' params' hidden' =>
        have hvalue := visible_skeleton (group j name' params' hidden')
        rw [skeleton] at hvalue
        simp [skeleton, hvalue, Function.comp_def]

theorem panel_skeleton (p : Param) : p.skeleton.panel = p.panel.map skeleton := by
  rw [panel, panel, panelMounts_skeleton, List.map_map, List.map_map]
  rfl

/-- What belongs into the panel of one definition belongs, with the same label, into that of any
other of the same skeleton. -/
theorem exists_panelMount_of_skeleton_eq (h : p.skeleton = q.skeleton) {m : Mount}
    (hm : m ∈ panelMounts p) :
    ∃ m' ∈ panelMounts q, m'.param.skeleton = m.param.skeleton ∧ m'.labelled = m.labelled := by
  have hmem : (⟨m.param.skeleton, m.labelled⟩ : Mount) ∈
      (panelMounts q).map fun m => ⟨m.param.skeleton, m.labelled⟩ := by
    rw [← panelMounts_skeleton, ← h, panelMounts_skeleton]
    exact List.mem_map_of_mem hm
  obtain ⟨m', hm', heq⟩ := List.mem_map.mp hmem
  obtain ⟨hskeleton, hlabelled⟩ := Mount.mk.inj heq
  exact ⟨m', hm', hskeleton, hlabelled⟩

theorem map_id_panel_of_skeleton_eq (h : p.skeleton = q.skeleton) :
    p.panel.map id = q.panel.map id := by
  have hids : ∀ x : Param, x.skeleton.panel.map id = x.panel.map id := by
    intro x
    rw [panel_skeleton, List.map_map]
    exact List.map_congr_left fun y _ => id_skeleton y
  rw [← hids p, h, hids q]

theorem asked_eq_of_skeleton_eq (h : p.skeleton = q.skeleton) : p.asked = q.asked := by
  have hasked : ∀ x : Param, x.skeleton.asked = x.asked := by
    intro x
    rw [asked, panelMounts_skeleton, List.map_map]
    exact List.map_congr_left fun m _ => by simp [Mount.ask]
  rw [← hasked p, h, hasked q]

/-! ### Exchanging -/

/-- Exchanging nodes for a definition of the skeleton that they have changes no skeleton. -/
theorem skeleton_exchange (h : ∀ q ∈ p.nodes, q.id = r.id → q.skeleton = r.skeleton) :
    (p.exchange r).skeleton = p.skeleton := by
  induction p using Param.induction with
  | leaf i name control =>
    by_cases hi : i = r.id
    · rw [exchange_of_id_eq (p := leaf i name control) hi]
      exact (h _ (self_mem_nodes _) hi).symm
    · rw [exchange_leaf_of_ne hi]
  | group i name params hidden ih =>
    by_cases hi : i = r.id
    · rw [exchange_of_id_eq (p := group i name params hidden) hi]
      exact (h _ (self_mem_nodes _) hi).symm
    · rw [exchange_group_of_ne hi, skeleton, skeleton, skeletonAmong_eq, skeletonAmong_eq,
        List.map_map]
      congr 1
      refine List.map_congr_left fun member hmember => ?_
      have hmem : member.2 ∈ params.map Prod.snd := List.mem_map_of_mem hmember
      have hbelow : ∀ q ∈ member.2.nodes, q.id = r.id → q.skeleton = r.skeleton := fun q hq =>
        h q (mem_nodes_iff.mpr (Or.inr ⟨member.2, hmem, hq⟩))
      simp [ih member.2 hmem hbelow]

end Param

/-! ### Forests -/

theorem under_map_skeleton {ns : List Param} {c g : ParamId} :
    Under (ns.map Param.skeleton) c g ↔ Under ns c g := by
  simp [Under, Param.children_skeleton]

namespace Forest

/-- The forest without values and settings. -/
def skeleton (f : Forest) : Forest := f.map Param.skeleton

variable {f f' : Forest} {p q q' : Param} {c g i : ParamId}

theorem nodes_skeleton (f : Forest) : f.skeleton.nodes = f.nodes.map Param.skeleton := by
  rw [nodes, nodes, skeleton, List.flatMap_map, List.map_flatMap, funext Param.nodes_skeleton]

theorem ids_skeleton (f : Forest) : f.skeleton.ids = f.ids := by
  rw [ids, ids, nodes_skeleton, List.map_map]
  exact List.map_congr_left fun q _ => Param.id_skeleton q

theorem mem_skeleton_nodes_iff :
    p.skeleton ∈ f.skeleton.nodes ↔ ∃ q ∈ f.nodes, q.skeleton = p.skeleton := by
  rw [nodes_skeleton, List.mem_map]

theorem mem_ids_of_mem_skeleton (h : p.skeleton ∈ f.skeleton.nodes) : p.id ∈ f.ids := by
  rw [← f.ids_skeleton, ← p.id_skeleton]
  exact mem_ids_of_mem_nodes h

/-- In forests of the same skeleton, nodes of the same id have the same skeleton. -/
theorem skeleton_eq_of_id_eq (h : f.skeleton = f'.skeleton) (hf : f.ids.Nodup) (hq : q ∈ f.nodes)
    (hq' : q' ∈ f'.nodes) (hid : q.id = q'.id) : q.skeleton = q'.skeleton := by
  have hmem : q.skeleton ∈ f.skeleton.nodes := mem_skeleton_nodes_iff.mpr ⟨q, hq, rfl⟩
  have hmem' : q'.skeleton ∈ f.skeleton.nodes := h ▸ mem_skeleton_nodes_iff.mpr ⟨q', hq', rfl⟩
  exact eq_of_id_eq (by rwa [ids_skeleton]) hmem hmem' (by simpa using hid)

theorem idsAt_of_mem_skeleton (hf : f.ids.Nodup) (hp : p.skeleton ∈ f.skeleton.nodes) :
    f.idsAt p.id = p.ids := by
  obtain ⟨q, hq, h⟩ := mem_skeleton_nodes_iff.mp hp
  rw [← Param.id_eq_of_skeleton_eq h, idsAt_id hf hq, Param.ids_eq_of_skeleton_eq h]

/-- A definition of a skeleton that is already there changes no skeleton. -/
theorem skeleton_define (hf : f.ids.Nodup) (hp : p.skeleton ∈ f.skeleton.nodes) :
    (f.define p).skeleton = f.skeleton := by
  obtain ⟨q, hq, h⟩ := mem_skeleton_nodes_iff.mp hp
  have hid := Param.id_eq_of_skeleton_eq h
  rw [define, if_pos (mem_ids_of_mem_skeleton hp), exchange, skeleton, skeleton, List.map_map]
  refine List.map_congr_left fun x hx => Param.skeleton_exchange fun y hy hyid => ?_
  have hyf : y ∈ f.nodes := List.mem_flatMap.mpr ⟨x, hx, hy⟩
  rw [eq_of_id_eq hf hyf hq (hyid.trans hid.symm), h]

/-- A definition of a skeleton that is already there keeps every id in its group. -/
theorem keeps_of_mem_skeleton (hf : f.ids.Nodup) (hp : p.skeleton ∈ f.skeleton.nodes) :
    f.Keeps p := by
  obtain ⟨q, hq, h⟩ := mem_skeleton_nodes_iff.mp hp
  refine ⟨?_, fun c g hcg _ => ?_⟩
  · rw [← Param.ids_eq_of_skeleton_eq h]
    exact nodup_ids_of_mem_nodes hf hq
  · rw [← under_map_skeleton, ← Param.nodes_skeleton, ← h, Param.nodes_skeleton,
      under_map_skeleton] at hcg
    exact hcg.mono (isInfix_nodes hq).subset

end Forest

end LiveTuner
