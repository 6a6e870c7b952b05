import LiveTuner.Proofs.EditorTree.Remove
import LiveTuner.Proofs.Param.Panel
import Mathlib.Data.List.Nodup
import Mathlib.Tactic.Tauto

/-!
# Mounting a definition

Mounting paints the editor of a definition, mounts what its panel shows, and then removes what the
panel showed before and shows no longer. The last step may reach what was mounted a moment ago. This
file says what is left at the end, and why what is gone is gone, without following the order in
which it happened.

The argument rests on the groups around an id: a mount touches nothing but what stands below the
definition, so the mounts for one panel do not touch each other.

## Main definitions

* `EditorTree.IsOrderly` — panels show what stands below their group
* `EditorTree.Painted` — the editor of a definition shows it
* `EditorTree.Mounting` — what has become of a tree when definitions have been mounted

## Main results

* `EditorTree.mounting_mountWithin` — a mount is such a change
-/

namespace LiveTuner

open Relation

namespace IsTreeLike

variable {ns : List Param} {p b c : Param} {z : ParamId}

/-- What one panel shows is not below anything else that it shows. -/
theorem eq_of_reflTransGen (h : IsTreeLike ns) (hp : p.ids.Nodup) (hns : p.nodes ⊆ ns)
    (hc : c ∈ p.panel) (hb : b ∈ p.panel) (hcb : ReflTransGen (Under ns) c.id b.id) : c = b := by
  have hbp : TransGen (Under ns) b.id p.id := Param.transGen_under_of_mem_panel hns hb
  -- From the group of the panel nothing that the panel shows can be reached.
  have hgroup : ¬ ReflTransGen (Under ns) p.id b.id := fun hpb => h.irrefl b.id (hbp.trans_left hpb)
  have hmember : ∀ {m g : Param}, m ∈ g.children → g ∈ p.nodes → Under ns m.id g.id :=
    fun hm hg => ⟨_, hns hg, rfl, _, hm, rfl⟩
  rcases hcb.cases_head with hid | ⟨x, hx, hxb⟩
  · exact Param.eq_of_mem_ids_of_mem_panel hp hc hb (Param.id_mem_ids c) (hid ▸ Param.id_mem_ids b)
  · rcases Param.mem_children_of_mem_panel hp hc with hchild | ⟨u, hu, hcu, hout⟩
    · obtain rfl := h.unique _ _ _ hx (hmember hchild (Param.self_mem_nodes p))
      exact absurd hxb hgroup
    · obtain rfl := h.unique _ _ _ hx (hmember hcu (Param.mem_nodes_of_mem_children hu))
      rcases hxb.cases_head with hid | ⟨y, hy, hyb⟩
      · exact absurd (hid ▸ Forest.mem_ids_of_mem_nodes (Forest.mem_nodes_of_mem hb)) hout
      · obtain rfl := h.unique _ _ _ hy (hmember hu (Param.self_mem_nodes p))
        exact absurd hyb hgroup

/-- Nothing is below two of the parameters that one panel shows. -/
theorem eq_of_below (h : IsTreeLike ns) (hp : p.ids.Nodup) (hns : p.nodes ⊆ ns)
    (hc : c ∈ p.panel) (hb : b ∈ p.panel) (hzc : ReflTransGen (Under ns) z c.id)
    (hzb : ReflTransGen (Under ns) z b.id) : c = b := by
  -- The groups around an id form one chain, so one of the two is below the other.
  have hunique : Relator.RightUnique (Under ns) := fun _ _ _ hx hy => h.unique _ _ _ hx hy
  rcases hzc.total_of_right_unique hunique hzb with hcb | hbc
  · exact h.eq_of_reflTransGen hp hns hc hb hcb
  · exact (h.eq_of_reflTransGen hp hns hb hc hbc).symm

/-- Some parameters of which nothing stands below two. -/
def Apart (ns : List Param) (ps : List Param) : Prop :=
  ps.Pairwise fun c b => ∀ z, ReflTransGen (Under ns) z c.id → ¬ ReflTransGen (Under ns) z b.id

theorem apart_panel (h : IsTreeLike ns) (hp : p.ids.Nodup) (hns : p.nodes ⊆ ns) :
    Apart ns p.panel := by
  have hnodup : p.panel.Nodup := by
    have hids := (Forest.ids_perm p.panel).nodup_iff.mp (Param.nodup_ids_panel hp)
    exact (List.nodup_append.mp hids).1.of_map
  exact hnodup.pairwise_of_forall_ne fun c hc b hb hne z hzc hzb =>
    hne (h.eq_of_below hp hns hc hb hzc hzb)

end IsTreeLike

namespace EditorTree

variable {ns : List Param} {s s' t t' : EditorTree} {p q b c : Param} {par g : Option ParamId}
  {ps : List Param} {z : ParamId} {bound : Nat} {labelled : Bool}

/-! ### Painted editors -/

/-- The editor of a definition is of its kind, bound to it and painted from it, and stands below
`par`. -/
def Painted (t : EditorTree) (q : Param) (par : Option ParamId) : Prop :=
  (∃ e, t.get? q.id = some e ∧ e.param = q ∧ e.kind = q.kind ∧ e.rebuild = e) ∧
    t.parent? q.id = par

theorem panelIds_groupPanel (mounts : List Mount) :
    panelIds (Editor.groupPanel mounts) = mounts.map (·.param.id) := by
  induction mounts with
  | nil => rfl
  | cons m rest ih =>
    rw [List.map_cons, ← ih]
    rfl

theorem panelIds_vectorPanel (v : ScalarVector) : panelIds (Editor.vectorPanel v) = [] := by
  rw [Editor.vectorPanel]
  induction v.components with
  | nil => rfl
  | cons s rest ih => exact ih

/-- A painted editor shows what belongs into its panel. -/
theorem childIds_of_rebuild_eq {e : Editor} (hkind : e.kind = e.param.kind) (h : e.rebuild = e) :
    e.view.childIds = e.param.panel.map Param.id := by
  rw [← h, Editor.rebuild]
  simp only [View.childIds, Editor.widget, hkind]
  cases hp : e.param with
  | group i name params hidden =>
    simp [Param.kind, panelIds_groupPanel, Param.panel, Function.comp_def]
  | leaf i name control =>
    have hnone : (Param.leaf i name control).panel = [] := rfl
    cases control with
    | vector v => simp [Param.kind, Control.kind, Param.control?, hnone, panelIds_vectorPanel]
    | choice | scalar | flag | text | unresolved =>
      simp [Param.kind, Control.kind, Param.control?, Editor.selectOf, hnone]

theorem Painted.get?_ne_none (h : t.Painted q par) : t.get? q.id ≠ none := by
  obtain ⟨⟨e, he, -⟩, -⟩ := h
  rw [he]
  exact Option.some_ne_none e

theorem Painted.shows_iff {i : ParamId} (h : t.Painted q par) :
    t.Shows q.id i ↔ i ∈ q.panel.map Param.id := by
  obtain ⟨⟨e, he, rfl, hkind, hrebuild⟩, -⟩ := h
  rw [← childIds_of_rebuild_eq hkind hrebuild]
  constructor
  · rintro ⟨e', he', hi⟩
    rw [he] at he'
    exact Option.some.inj he' ▸ hi
  · exact fun hi => ⟨e, he, hi⟩

theorem Painted.of_eq (h : t.Painted q par) (hget : t'.get? q.id = t.get? q.id)
    (hparent : t'.parent? q.id = t.parent? q.id) : t'.Painted q par := by
  obtain ⟨⟨e, he, hpainted⟩, hpar⟩ := h
  exact ⟨⟨e, hget.trans he, hpainted⟩, hparent.trans hpar⟩

/-- What a mount finds: no group is recorded above an id without an editor, editors are of the kind
of their parameters, and panels show what stands below their group. -/
structure IsOrderly (ns : List Param) (t : EditorTree) : Prop where
  /-- No group is recorded above an id without an editor. -/
  isTidy : t.IsTidy
  /-- An editor is of the kind of the parameter it is bound to. -/
  kind_eq : ∀ id e, t.get? id = some e → e.kind = e.param.kind
  /-- A panel shows what stands below its group. -/
  below : ∀ g c, t.Shows g c → TransGen (Under ns) c g

theorem Painted.below (h : t.Painted q par) (hns : q.nodes ⊆ ns) {i : ParamId}
    (hi : t.Shows q.id i) : TransGen (Under ns) i q.id := by
  obtain ⟨c, hc, rfl⟩ := List.mem_map.mp (h.shows_iff.mp hi)
  exact Param.transGen_under_of_mem_panel hns hc

/-- Painting the editor of a definition keeps a tree in order. -/
theorem IsOrderly.paint (hs : s.IsOrderly ns) (hns : p.nodes ⊆ ns) (htop : t.Painted p par)
    (hkeep : ∀ z, z ≠ p.id → t.get? z = s.get? z ∧ t.parent? z = s.parent? z) :
    t.IsOrderly ns := by
  refine ⟨fun z hz => ?_, fun z e he => ?_, fun z c hzc => ?_⟩
  · have hzp : z ≠ p.id := fun he => htop.get?_ne_none (he ▸ hz)
    rw [(hkeep z hzp).2]
    exact hs.isTidy z ((hkeep z hzp).1.symm.trans hz)
  · by_cases hzp : z = p.id
    · obtain ⟨⟨e', he', hparam, hkind, -⟩, -⟩ := htop
      rw [hzp, he'] at he
      rw [← Option.some.inj he, hkind, hparam]
    · exact hs.kind_eq z e ((hkeep z hzp).1.symm.trans he)
  · by_cases hzp : z = p.id
    · subst hzp
      exact htop.below hns hzc
    · exact hs.below z c (hzc.of_get?_eq (hkeep z hzp).1.symm)

/-! ### The outcome of a mount -/

/-- Mounting `ps` below `par` puts a parameter into the panel of a group. -/
def PlacedAmong (ps : List Param) (par : Option ParamId) (q : Param) (g : Option ParamId) : Prop :=
  ∃ p ∈ ps, p.Placed par q g

/-- Mounting `ps` places no parameter of the id. -/
def Unplaced (ps : List Param) (par : Option ParamId) (z : ParamId) : Prop :=
  ∀ q g, PlacedAmong ps par q g → q.id ≠ z

/-- What has become of the tree `s` when the definitions `ps` have been mounted below `par`. -/
structure Mounting (ns ps : List Param) (par : Option ParamId) (s s' : EditorTree) : Prop where
  /-- The topmost ids stay. -/
  roots_eq : s'.roots = s.roots
  /-- No group is recorded above an id without an editor. -/
  isTidy : s'.IsTidy
  /-- The definitions themselves are shown. -/
  tops : ∀ p ∈ ps, s'.Painted p par
  /-- What is placed is shown where it is placed, unless it is gone. -/
  placed : ∀ q g, PlacedAmong ps par q g → s'.Painted q g ∨ s'.get? q.id = none
  /-- All other ids are as they were, unless they are gone. -/
  others : ∀ z, Unplaced ps par z →
    s'.get? z = s.get? z ∧ s'.parent? z = s.parent? z ∨ s'.get? z = none
  /-- What stands below none of the definitions is as it was. -/
  outside : ∀ z, (∀ p ∈ ps, ¬ ReflTransGen (Under ns) z p.id) →
    s'.get? z = s.get? z ∧ s'.parent? z = s.parent? z
  /-- With an editor that is not placed, all that its panel showed is gone. -/
  cascade : ∀ z c, Unplaced ps par z → s.Shows z c → s'.get? z = none → s'.get? c = none
  /-- With a placed editor, all that its panel was to show is gone. -/
  cascade_placed : ∀ b g c, PlacedAmong ps par b g → c ∈ b.panel → s'.get? b.id = none →
    s'.get? c.id = none
  /-- What the panel of a placed editor showed and shows no longer is gone. -/
  stale : ∀ b g c, PlacedAmong ps par b g → s.Shows b.id c → c ∉ b.panel.map Param.id →
    s'.get? c = none
  /-- Whatever is gone is so for one of these reasons, or because the panel that shows it is. -/
  cause : ∀ z, s'.get? z = none → s.get? z ≠ none ∨ ¬ Unplaced ps par z →
    (∃ b g, PlacedAmong ps par b g ∧ s.Shows b.id z ∧ z ∉ b.panel.map Param.id) ∨
    (∃ w, Unplaced ps par w ∧ s.Shows w z ∧ s'.get? w = none) ∨
    ∃ b g, PlacedAmong ps par b g ∧ s'.get? b.id = none ∧ z ∈ b.panel.map Param.id

theorem PlacedAmong.below (h : PlacedAmong ps par q g) (hns : ∀ p ∈ ps, p.nodes ⊆ ns) :
    ∃ p ∈ ps, ReflTransGen (Under ns) q.id p.id := by
  obtain ⟨p, hp, hplaced⟩ := h
  refine ⟨p, hp, ?_⟩
  rcases List.mem_cons.mp hplaced.id_mem_ids with hid | hid
  · rw [hid]
  · exact (Forest.transGen_under_of_mem (hns p hp) hid).to_reflTransGen

theorem PlacedAmong.nodes_subset (h : PlacedAmong ps par q g) (hns : ∀ p ∈ ps, p.nodes ⊆ ns) :
    q.nodes ⊆ ns := by
  obtain ⟨p, hp, hplaced⟩ := h
  exact fun x hx => hns p hp (Param.mem_nodes_trans hplaced.mem_nodes hx)

theorem not_unplaced_iff : ¬ Unplaced ps par z ↔ ∃ q g, PlacedAmong ps par q g ∧ q.id = z := by
  simp only [Unplaced, not_forall, not_not, exists_prop]

theorem placedAmong_cons :
    PlacedAmong (p :: ps) par q g ↔ PlacedAmong [p] par q g ∨ PlacedAmong ps par q g := by
  simp [PlacedAmong]

theorem unplaced_cons : Unplaced (p :: ps) par z ↔ Unplaced [p] par z ∧ Unplaced ps par z := by
  constructor
  · intro hz
    exact ⟨fun q g hq => hz q g (placedAmong_cons.mpr (Or.inl hq)),
      fun q g hq => hz q g (placedAmong_cons.mpr (Or.inr hq))⟩
  · intro ⟨hz, hz'⟩ q g hq
    exact (placedAmong_cons.mp hq).elim (hz q g) (hz' q g)

theorem PlacedAmong.below_singleton (h : PlacedAmong [p] par q g) (hns : p.nodes ⊆ ns) :
    ReflTransGen (Under ns) q.id p.id := by
  obtain ⟨b, hb, hqb⟩ := h.below fun q hq => List.mem_singleton.mp hq ▸ hns
  exact List.mem_singleton.mp hb ▸ hqb

/-- A definition is placed itself, and then what its panel shows. -/
theorem placedAmong_panel :
    PlacedAmong [p] par q g ↔ q = p ∧ g = par ∨ PlacedAmong p.panel (some p.id) q g := by
  simp only [PlacedAmong, List.mem_singleton, exists_eq_left, Param.placed_iff (p := p)]

theorem unplaced_panel :
    Unplaced [p] par z ↔ p.id ≠ z ∧ Unplaced p.panel (some p.id) z := by
  constructor
  · intro hz
    exact ⟨hz p par (placedAmong_panel.mpr (Or.inl ⟨rfl, rfl⟩)),
      fun q g hq => hz q g (placedAmong_panel.mpr (Or.inr hq))⟩
  · intro ⟨hne, hz⟩ q g hq
    rcases placedAmong_panel.mp hq with ⟨rfl, -⟩ | hq
    · exact hne
    · exact hz q g hq

namespace Mounting

theorem of_ne_none (h : Mounting ns ps par s s') (hz : Unplaced ps par z)
    (hget : s'.get? z ≠ none) :
    s'.get? z = s.get? z ∧ s'.parent? z = s.parent? z := by
  rcases h.others z hz with hsame | hnone
  · exact hsame
  · exact absurd hnone hget

/-- After a mount, another one finds what it has to find. -/
theorem isOrderly (h : Mounting ns ps par s s') (hs : s.IsOrderly ns)
    (hns : ∀ p ∈ ps, p.nodes ⊆ ns) : s'.IsOrderly ns := by
  refine ⟨h.isTidy, fun z e he => ?_, fun z c hzc => ?_⟩
  · by_cases hz : Unplaced ps par z
    · have hsame := h.of_ne_none hz (by simp [he])
      exact hs.kind_eq z e (hsame.1.symm.trans he)
    · obtain ⟨q, g, hq, rfl⟩ := not_unplaced_iff.mp hz
      rcases h.placed q g hq with ⟨⟨e', he', hparam, hkind, -⟩, -⟩ | hnone
      · obtain rfl := Option.some.inj (he.symm.trans he')
        rw [hkind, hparam]
      · exact absurd (he.symm.trans hnone) (Option.some_ne_none e)
  · by_cases hz : Unplaced ps par z
    · have hsame := h.of_ne_none hz hzc.get?_ne_none
      exact hs.below z c (hzc.of_get?_eq hsame.1.symm)
    · obtain ⟨q, g, hq, rfl⟩ := not_unplaced_iff.mp hz
      rcases h.placed q g hq with hpainted | hnone
      · exact hpainted.below (hq.nodes_subset hns) hzc
      · exact absurd hnone hzc.get?_ne_none

theorem nil (hs : s.IsTidy) : Mounting ns [] par s s where
  roots_eq := rfl
  isTidy := hs
  tops _ hp := absurd hp List.not_mem_nil
  placed := by
    rintro q g ⟨p, hp, -⟩
    exact absurd hp List.not_mem_nil
  others _ _ := Or.inl ⟨rfl, rfl⟩
  outside _ _ := ⟨rfl, rfl⟩
  cascade _ _ _ hzc hz := absurd hz hzc.get?_ne_none
  cascade_placed := by
    rintro b g c ⟨p, hp, -⟩
    exact absurd hp List.not_mem_nil
  stale := by
    rintro b g c ⟨p, hp, -⟩
    exact absurd hp List.not_mem_nil
  cause := by
    rintro z hz (hz' | hz')
    · exact absurd hz hz'
    · exact absurd (fun q g ⟨p, hp, _⟩ => absurd hp List.not_mem_nil) hz'

/-! ### One definition, then others -/

section Cons

theorem outside_singleton (h : Mounting ns [p] par s t) (hz : ¬ ReflTransGen (Under ns) z p.id) :
    t.get? z = s.get? z ∧ t.parent? z = s.parent? z :=
  h.outside z fun _ hq => List.mem_singleton.mp hq ▸ hz

/-- A mount takes nothing away but what stands below the definition. -/
theorem below_of_gone (h : Mounting ns [p] par s t) (hz : s.get? z ≠ none)
    (hgone : t.get? z = none) : ReflTransGen (Under ns) z p.id := by
  by_contra hout
  exact hz ((h.outside_singleton hout).1.symm.trans hgone)

variable (hapart : ∀ q ∈ ps, ∀ z, ReflTransGen (Under ns) z p.id → ¬ ReflTransGen (Under ns) z q.id)

include hapart

/-- The mounts that follow leave alone what stands below the definition. -/
theorem eq_of_apart (h : Mounting ns ps par t s') (hz : ReflTransGen (Under ns) z p.id) :
    s'.get? z = t.get? z ∧ s'.parent? z = t.parent? z :=
  h.outside z fun q hq => hapart q hq z hz

/-- The mounts that follow place nothing below the definition. -/
theorem unplaced_of_below (hps : ∀ q ∈ ps, q.nodes ⊆ ns) (hz : ReflTransGen (Under ns) z p.id) :
    Unplaced ps par z := by
  rintro q g hq rfl
  obtain ⟨b, hb, hqb⟩ := hq.below hps
  exact hapart b hb q.id hz hqb

/-- What the first of the mounts took away is gone for a reason that all of them have. -/
theorem cause_first (h : Mounting ns [p] par s t) (h' : Mounting ns ps par t s')
    (hp : p.nodes ⊆ ns) (hps : ∀ q ∈ ps, q.nodes ⊆ ns) (hzp : ReflTransGen (Under ns) z p.id)
    (hnone : s'.get? z = none) (hz : s.get? z ≠ none ∨ ¬ Unplaced (p :: ps) par z) :
    (∃ b g, PlacedAmong (p :: ps) par b g ∧ s.Shows b.id z ∧ z ∉ b.panel.map Param.id) ∨
    (∃ w, Unplaced (p :: ps) par w ∧ s.Shows w z ∧ s'.get? w = none) ∨
    ∃ b g, PlacedAmong (p :: ps) par b g ∧ s'.get? b.id = none ∧ z ∈ b.panel.map Param.id := by
  have hgone : t.get? z = none := (eq_of_apart hapart h' hzp).1.symm.trans hnone
  have hz' : s.get? z ≠ none ∨ ¬ Unplaced [p] par z := by
    refine hz.imp_right fun hz hz₁ => ?_
    exact hz (unplaced_cons.mpr ⟨hz₁, unplaced_of_below hapart hps hzp⟩)
  rcases h.cause z hgone hz' with ⟨b, g, hb, hbz, hout⟩ | ⟨w, hw, hwz, hwnone⟩ |
    ⟨b, g, hb, hbnone, hbz⟩
  · exact Or.inl ⟨b, g, placedAmong_cons.mpr (Or.inl hb), hbz, hout⟩
  · have hwp := h.below_of_gone hwz.get?_ne_none hwnone
    have hw' := unplaced_cons.mpr ⟨hw, unplaced_of_below hapart hps hwp⟩
    exact Or.inr (Or.inl ⟨w, hw', hwz, (eq_of_apart hapart h' hwp).1.trans hwnone⟩)
  · have hbp := hb.below_singleton hp
    exact Or.inr (Or.inr ⟨b, g, placedAmong_cons.mpr (Or.inl hb),
      (eq_of_apart hapart h' hbp).1.trans hbnone, hbz⟩)

/-- What the later mounts took away is gone for a reason that all of them have. -/
theorem cause_later (h : Mounting ns [p] par s t) (h' : Mounting ns ps par t s')
    (hs : s.IsOrderly ns) (hp : p.nodes ⊆ ns) (hps : ∀ q ∈ ps, q.nodes ⊆ ns)
    (hzp : ¬ ReflTransGen (Under ns) z p.id) (hnone : s'.get? z = none)
    (hz : s.get? z ≠ none ∨ ¬ Unplaced (p :: ps) par z) :
    (∃ b g, PlacedAmong (p :: ps) par b g ∧ s.Shows b.id z ∧ z ∉ b.panel.map Param.id) ∨
    (∃ w, Unplaced (p :: ps) par w ∧ s.Shows w z ∧ s'.get? w = none) ∨
    ∃ b g, PlacedAmong (p :: ps) par b g ∧ s'.get? b.id = none ∧ z ∈ b.panel.map Param.id := by
  have ht := h.isOrderly hs fun q hq => List.mem_singleton.mp hq ▸ hp
  have hz' : t.get? z ≠ none ∨ ¬ Unplaced ps par z := by
    rcases hz with hz | hz
    · exact Or.inl ((h.outside_singleton hzp).1 ▸ hz)
    · refine Or.inr fun hz₂ => hz (unplaced_cons.mpr ⟨?_, hz₂⟩)
      rintro q g hq rfl
      exact hzp (hq.below_singleton hp)
  rcases h'.cause z hnone hz' with ⟨b, g, hb, hbz, hout⟩ | ⟨w, hw, hwz, hwnone⟩ |
    ⟨b, g, hb, hbnone, hbz⟩
  · have hbp : ¬ ReflTransGen (Under ns) b.id p.id := fun hbp =>
      unplaced_of_below hapart hps hbp b g hb rfl
    have hbz' := hbz.of_get?_eq (h.outside_singleton hbp).1.symm
    exact Or.inl ⟨b, g, placedAmong_cons.mpr (Or.inr hb), hbz', hout⟩
  · -- If the first mount had placed `w`, then `z` would stand below `p`.
    have hw₁ : Unplaced [p] par w := by
      rintro q g hq rfl
      exact hzp ((ht.below _ z hwz).to_reflTransGen.trans (hq.below_singleton hp))
    have hwz' := hwz.of_get?_eq (h.of_ne_none hw₁ hwz.get?_ne_none).1.symm
    exact Or.inr (Or.inl ⟨w, unplaced_cons.mpr ⟨hw₁, hw⟩, hwz', hwnone⟩)
  · exact Or.inr (Or.inr ⟨b, g, placedAmong_cons.mpr (Or.inr hb), hbnone, hbz⟩)

/-- Mounting one definition and then others is mounting them all, if nothing stands below both the
one and another. -/
theorem cons (h : Mounting ns [p] par s t) (h' : Mounting ns ps par t s') (hs : s.IsOrderly ns)
    (hp : p.nodes ⊆ ns) (hps : ∀ q ∈ ps, q.nodes ⊆ ns) : Mounting ns (p :: ps) par s s' := by
  refine ⟨h'.roots_eq.trans h.roots_eq, h'.isTidy, ?tops, ?placed, ?others, ?outside, ?cascade,
    ?cascade_placed, ?stale, ?cause⟩
  case tops =>
    intro q hq
    rcases List.mem_cons.mp hq with rfl | hq
    · have hsame := eq_of_apart hapart h' (ReflTransGen.refl (a := q.id))
      exact (h.tops q (by simp)).of_eq hsame.1 hsame.2
    · exact h'.tops q hq
  case placed =>
    intro q g hq
    rcases placedAmong_cons.mp hq with hq | hq
    · have hsame := eq_of_apart hapart h' (hq.below_singleton hp)
      rcases h.placed q g hq with hpainted | hnone
      · exact Or.inl (hpainted.of_eq hsame.1 hsame.2)
      · exact Or.inr (hsame.1.trans hnone)
    · exact h'.placed q g hq
  case others =>
    intro z hz
    obtain ⟨hz₁, hz₂⟩ := unplaced_cons.mp hz
    by_cases hnone : s'.get? z = none
    · exact Or.inr hnone
    · have hsame := h'.of_ne_none hz₂ hnone
      have hsame' := h.of_ne_none hz₁ (hsame.1 ▸ hnone)
      exact Or.inl ⟨hsame.1.trans hsame'.1, hsame.2.trans hsame'.2⟩
  case outside =>
    intro z hz
    have hsame := h'.outside z fun q hq => hz q (List.mem_cons_of_mem _ hq)
    have hsame' := h.outside_singleton (hz p List.mem_cons_self)
    exact ⟨hsame.1.trans hsame'.1, hsame.2.trans hsame'.2⟩
  case cascade =>
    intro z c hz hzc hnone
    obtain ⟨hz₁, hz₂⟩ := unplaced_cons.mp hz
    by_cases hgone : t.get? z = none
    · -- The first mount took `z` away, and what it showed stands below `p`.
      have hzp := h.below_of_gone hzc.get?_ne_none hgone
      have hcp := (hs.below z c hzc).to_reflTransGen.trans hzp
      exact (eq_of_apart hapart h' hcp).1.trans (h.cascade z c hz₁ hzc hgone)
    · have hstill := hzc.of_get?_eq (h.of_ne_none hz₁ hgone).1
      exact h'.cascade z c hz₂ hstill hnone
  case cascade_placed =>
    intro b g c hb hc hnone
    rcases placedAmong_cons.mp hb with hb | hb
    · have hbp := hb.below_singleton hp
      have hbns := hb.nodes_subset fun q hq => List.mem_singleton.mp hq ▸ hp
      have hcp := (Param.transGen_under_of_mem_panel hbns hc).to_reflTransGen.trans hbp
      have hgone := (eq_of_apart hapart h' hbp).1.symm.trans hnone
      exact (eq_of_apart hapart h' hcp).1.trans (h.cascade_placed b g c hb hc hgone)
    · exact h'.cascade_placed b g c hb hc hnone
  case stale =>
    intro b g c hb hbc hout
    rcases placedAmong_cons.mp hb with hb | hb
    · have hcp := (hs.below _ c hbc).to_reflTransGen.trans (hb.below_singleton hp)
      exact (eq_of_apart hapart h' hcp).1.trans (h.stale b g c hb hbc hout)
    · have hbp : ¬ ReflTransGen (Under ns) b.id p.id := fun hbp =>
        unplaced_of_below hapart hps hbp b g hb rfl
      exact h'.stale b g c hb (hbc.of_get?_eq (h.outside_singleton hbp).1) hout
  case cause =>
    intro z hnone hz
    by_cases hzp : ReflTransGen (Under ns) z p.id
    · exact cause_first hapart h h' hp hps hzp hnone hz
    · exact cause_later hapart h h' hs hp hps hzp hnone hz

end Cons

end Mounting

/-! ### A definition from its parts -/

/-- The parts of a mount of `p` below `par`: the editor of `p` is painted (`t`), what its panel
shows is mounted (`t'`), and `gone` is removed (`s'`), which is what the panel showed before and
shows no longer. -/
structure Parts (ns : List Param) (p : Param) (par : Option ParamId) (s t t' s' : EditorTree)
    (gone : List ParamId) : Prop where
  /-- The definition stands in the forest that the tree shows. -/
  nodes_subset : p.nodes ⊆ ns
  /-- The tree was in order. -/
  orderly : s.IsOrderly ns
  /-- Painting keeps it in order. -/
  orderly_painted : t.IsOrderly ns
  /-- The definition itself is painted. -/
  painted : t.Painted p par
  /-- The topmost ids stay. -/
  roots_eq : t.roots = s.roots
  /-- Painting changes one editor. -/
  keep : ∀ z, z ≠ p.id → t.get? z = s.get? z ∧ t.parent? z = s.parent? z
  /-- What the panel shows is mounted. -/
  panel : Mounting ns p.panel (some p.id) t t'
  /-- What is stale is removed. -/
  removal : Removal t' s' gone
  /-- Stale is what the panel showed before and shows no longer. -/
  mem_gone : ∀ c, c ∈ gone ↔ s.Shows p.id c ∧ c ∉ p.panel.map Param.id

namespace Parts

variable {gone : List ParamId}

theorem panel_subset (h : Parts ns p par s t t' s' gone) : ∀ q ∈ p.panel, q.nodes ⊆ ns :=
  fun _ hq => Param.nodes_subset_of_mem_panel h.nodes_subset hq

theorem orderly_panel (h : Parts ns p par s t t' s' gone) : t'.IsOrderly ns :=
  h.panel.isOrderly h.orderly_painted h.panel_subset

/-- What the panel places stands strictly below the definition. -/
theorem below_of_placed (h : Parts ns p par s t t' s' gone)
    (hq : PlacedAmong p.panel (some p.id) q g) : TransGen (Under ns) q.id p.id := by
  obtain ⟨c, hc, hqc⟩ := hq.below h.panel_subset
  exact TransGen.trans_right hqc (Param.transGen_under_of_mem_panel h.nodes_subset hc)

/-- So does what the removal reaches. -/
theorem below_of_reach (h : Parts ns p par s t t' s' gone) {y : ParamId} (hy : y ∈ gone)
    (hyz : ReflTransGen t'.Shows y z) : TransGen (Under ns) z p.id := by
  induction hyz with
  | refl => exact h.orderly.below _ _ ((h.mem_gone y).mp hy).1
  | tail _ hzw ih => exact (h.orderly_panel.below _ _ hzw).trans ih

/-- What does not stand strictly below the definition is as it was when the editor was painted. -/
theorem eq_of_not_below (h : Parts ns p par s t t' s' gone)
    (hz : ¬ TransGen (Under ns) z p.id) :
    (t'.get? z = t.get? z ∧ t'.parent? z = t.parent? z) ∧
      s'.get? z = t.get? z ∧ s'.parent? z = t.parent? z := by
  have hmid : t'.get? z = t.get? z ∧ t'.parent? z = t.parent? z := by
    refine h.panel.outside z fun q hq hzq => hz ?_
    exact TransGen.trans_right hzq (Param.transGen_under_of_mem_panel h.nodes_subset hq)
  have hlast := h.removal.kept z fun y hy hyz => hz (h.below_of_reach hy hyz)
  exact ⟨hmid, hlast.1.trans hmid.1, hlast.2.trans hmid.2⟩

theorem painted_last (h : Parts ns p par s t t' s' gone) (hT : IsTreeLike ns) : s'.Painted p par :=
  have hself := (h.eq_of_not_below (hT.irrefl p.id)).2
  h.painted.of_eq hself.1 hself.2

theorem panel_get?_ne_none (h : Parts ns p par s t t' s' gone) (hT : IsTreeLike ns) :
    t'.get? p.id ≠ none := by
  rw [(h.eq_of_not_below (hT.irrefl p.id)).1.1]
  exact h.painted.get?_ne_none

theorem shows_iff (h : Parts ns p par s t t' s' gone) {i : ParamId} (hz : z ≠ p.id) :
    t.Shows z i ↔ s.Shows z i :=
  ⟨fun hi => hi.of_get?_eq (h.keep z hz).1.symm, fun hi => hi.of_get?_eq (h.keep z hz).1⟩

/-- What the mount for the panel took away is gone for a reason that the whole mount has. -/
theorem cause_panel (h : Parts ns p par s t t' s' gone) (hT : IsTreeLike ns)
    (hmiss : t'.get? z = none) (hz : t.get? z ≠ none ∨ ¬ Unplaced p.panel (some p.id) z) :
    (∃ b g, PlacedAmong [p] par b g ∧ s.Shows b.id z ∧ z ∉ b.panel.map Param.id) ∨
    (∃ w, Unplaced [p] par w ∧ s.Shows w z ∧ s'.get? w = none) ∨
    ∃ b g, PlacedAmong [p] par b g ∧ s'.get? b.id = none ∧ z ∈ b.panel.map Param.id := by
  rcases h.panel.cause z hmiss hz with ⟨b, g, hb, hbz, hout⟩ | ⟨w, hw, hwz, hwnone⟩ |
    ⟨b, g, hb, hbnone, hbz⟩
  · have hbp : b.id ≠ p.id := fun he => hT.irrefl p.id (he ▸ h.below_of_placed hb)
    exact Or.inl ⟨b, g, placedAmong_panel.mpr (Or.inr hb), (h.shows_iff hbp).mp hbz, hout⟩
  · have hwp : w ≠ p.id := by
      rintro rfl
      exact h.panel_get?_ne_none hT hwnone
    exact Or.inr (Or.inl ⟨w, unplaced_panel.mpr ⟨hwp.symm, hw⟩, (h.shows_iff hwp).mp hwz,
      h.removal.get?_eq_none hwnone⟩)
  · exact Or.inr (Or.inr ⟨b, g, placedAmong_panel.mpr (Or.inr hb),
      h.removal.get?_eq_none hbnone, hbz⟩)

/-- So is what the removal took away. -/
theorem cause_removal (h : Parts ns p par s t t' s' gone) (hT : IsTreeLike ns)
    (hmiss : t'.get? z ≠ none) (hnone : s'.get? z = none) :
    (∃ b g, PlacedAmong [p] par b g ∧ s.Shows b.id z ∧ z ∉ b.panel.map Param.id) ∨
    (∃ w, Unplaced [p] par w ∧ s.Shows w z ∧ s'.get? w = none) ∨
    ∃ b g, PlacedAmong [p] par b g ∧ s'.get? b.id = none ∧ z ∈ b.panel.map Param.id := by
  obtain ⟨y, hy, hyz⟩ := h.removal.exists_reach hmiss hnone
  rcases hyz.cases_tail with rfl | ⟨w, hyw, hwz⟩
  · obtain ⟨hpz, hout⟩ := (h.mem_gone z).mp hy
    exact Or.inl ⟨p, par, placedAmong_panel.mpr (Or.inl ⟨rfl, rfl⟩), hpz, hout⟩
  · -- The removal came to `z` from the panel of `w`, painted before or during the mount.
    have hwnone := (h.removal.gone y hy w hyw).1
    have hwp : w ≠ p.id := by
      rintro rfl
      exact (h.painted_last hT).get?_ne_none hwnone
    by_cases hw : Unplaced p.panel (some p.id) w
    · have hwz' := hwz.of_get?_eq (h.panel.of_ne_none hw hwz.get?_ne_none).1.symm
      exact Or.inr (Or.inl ⟨w, unplaced_panel.mpr ⟨hwp.symm, hw⟩, (h.shows_iff hwp).mp hwz',
        hwnone⟩)
    · obtain ⟨b, g, hb, rfl⟩ := not_unplaced_iff.mp hw
      have hpainted : t'.Painted b g := (h.panel.placed b g hb).resolve_right hwz.get?_ne_none
      exact Or.inr (Or.inr ⟨b, g, placedAmong_panel.mpr (Or.inr hb), hwnone,
        hpainted.shows_iff.mp hwz⟩)

/-- Together the parts are a mount of the definition. -/
theorem mounting (h : Parts ns p par s t t' s' gone) (hT : IsTreeLike ns) :
    Mounting ns [p] par s s' := by
  refine ⟨h.removal.roots_eq.trans (h.panel.roots_eq.trans h.roots_eq),
    h.removal.isTidy h.orderly_panel.isTidy, ?tops, ?placed, ?others, ?outside, ?cascade,
    ?cascade_placed, ?stale, ?cause⟩
  case tops =>
    intro q hq
    exact List.mem_singleton.mp hq ▸ h.painted_last hT
  case placed =>
    intro q g hq
    rcases placedAmong_panel.mp hq with ⟨rfl, rfl⟩ | hq
    · exact Or.inl (h.painted_last hT)
    · by_cases hnone : s'.get? q.id = none
      · exact Or.inr hnone
      · have hsame := h.removal.get?_eq_of_ne_none hnone
        rcases h.panel.placed q g hq with hpainted | hnone'
        · exact Or.inl (hpainted.of_eq hsame.1 hsame.2)
        · exact Or.inr (hsame.1.trans hnone')
  case others =>
    intro z hz
    obtain ⟨hne, hz⟩ := unplaced_panel.mp hz
    by_cases hnone : s'.get? z = none
    · exact Or.inr hnone
    · have hsame := h.removal.get?_eq_of_ne_none hnone
      have hsame' := h.panel.of_ne_none hz (hsame.1 ▸ hnone)
      have hsame'' := h.keep z hne.symm
      exact Or.inl ⟨hsame.1.trans (hsame'.1.trans hsame''.1),
        hsame.2.trans (hsame'.2.trans hsame''.2)⟩
  case outside =>
    intro z hz
    have hzp : ¬ ReflTransGen (Under ns) z p.id := hz p (List.mem_singleton_self p)
    have hne : z ≠ p.id := by
      rintro rfl
      exact hzp .refl
    have hsame := (h.eq_of_not_below fun hz => hzp hz.to_reflTransGen).2
    exact ⟨hsame.1.trans (h.keep z hne).1, hsame.2.trans (h.keep z hne).2⟩
  case cascade =>
    intro z c hz hzc hnone
    obtain ⟨hne, hz⟩ := unplaced_panel.mp hz
    have hzc' := (h.shows_iff hne.symm).mpr hzc
    by_cases hmiss : t'.get? z = none
    · exact h.removal.get?_eq_none (h.panel.cascade z c hz hzc' hmiss)
    · -- The removal took `z` away, and went on to what it showed.
      have hzc'' := hzc'.of_get?_eq (h.panel.of_ne_none hz hmiss).1
      obtain ⟨y, hy, hyz⟩ := h.removal.exists_reach hmiss hnone
      exact (h.removal.gone y hy c (hyz.tail hzc'')).1
  case cascade_placed =>
    intro b g c hb hc hnone
    rcases placedAmong_panel.mp hb with ⟨rfl, -⟩ | hb
    · exact absurd hnone (h.painted_last hT).get?_ne_none
    · by_cases hmiss : t'.get? b.id = none
      · exact h.removal.get?_eq_none (h.panel.cascade_placed b g c hb hc hmiss)
      · -- The removal took `b` away, and went on to what had been painted into its panel.
        have hpainted := (h.panel.placed b g hb).resolve_right hmiss
        have hbc := hpainted.shows_iff.mpr (List.mem_map_of_mem hc)
        obtain ⟨y, hy, hyb⟩ := h.removal.exists_reach hmiss hnone
        exact (h.removal.gone y hy c.id (hyb.tail hbc)).1
  case stale =>
    intro b g c hb hbc hout
    rcases placedAmong_panel.mp hb with ⟨rfl, -⟩ | hb
    · exact (h.removal.gone c ((h.mem_gone c).mpr ⟨hbc, hout⟩) c .refl).1
    · have hbp : b.id ≠ p.id := fun he => hT.irrefl p.id (he ▸ h.below_of_placed hb)
      exact h.removal.get?_eq_none (h.panel.stale b g c hb ((h.shows_iff hbp).mpr hbc) hout)
  case cause =>
    intro z hnone hz
    by_cases hmiss : t'.get? z = none
    · have hne : z ≠ p.id := by
        rintro rfl
        exact (h.painted_last hT).get?_ne_none hnone
      refine h.cause_panel hT hmiss (hz.imp (fun hz => (h.keep z hne).1 ▸ hz) fun hz hz' => ?_)
      exact hz (unplaced_panel.mpr ⟨hne.symm, hz'⟩)
    · exact h.cause_removal hT hmiss hnone

end Parts

/-! ### The walk -/

/-- Mounting several definitions one after the other. -/
theorem mounting_foldl {mounts : List Mount} (hs : s.IsOrderly ns)
    (hns : ∀ m ∈ mounts, m.param.nodes ⊆ ns)
    (hapart : IsTreeLike.Apart ns (mounts.map (·.param)))
    (hmount : ∀ m ∈ mounts, ∀ s : EditorTree, s.IsOrderly ns →
      Mounting ns [m.param] par s (mountWithin bound par s m)) :
    Mounting ns (mounts.map (·.param)) par s (mounts.foldl (mountWithin bound par) s) := by
  induction mounts generalizing s with
  | nil => exact .nil hs.isTidy
  | cons m rest ih =>
    have hm := hmount m List.mem_cons_self s hs
    have hmns := hns m List.mem_cons_self
    rw [List.map_cons] at hapart
    obtain ⟨hfirst, hrest⟩ := List.pairwise_cons.mp hapart
    have hafter := hm.isOrderly hs fun q hq => List.mem_singleton.mp hq ▸ hmns
    have hrest' := ih hafter (fun q hq => hns q (List.mem_cons_of_mem _ hq)) hrest
      fun q hq => hmount q (List.mem_cons_of_mem _ hq)
    refine Mounting.cons hfirst hm hrest' hs hmns ?_
    intro q hq
    obtain ⟨m', hm', rfl⟩ := List.mem_map.mp hq
    exact hns m' (List.mem_cons_of_mem _ hm')

/-- The editor for a mount is of the kind of the parameter, bound to it and labelled as the mount
asks for; nothing else changes. -/
theorem editorFor_eq (hs : s.IsOrderly ns) (m : Mount) :
    ∃ e t previous, s.editorFor m = (e, t, previous) ∧ e.param = m.param ∧ e.kind = m.param.kind ∧
      e.labelled = m.labelled ∧ t.roots = s.roots ∧
      (∀ z, t.get? z = s.get? z ∧ t.parent? z = s.parent? z) ∧
      ∀ c, c ∈ previous ↔ s.Shows m.param.id c := by
  rw [editorFor]
  cases he : s.get? m.param.id with
  | none =>
    refine ⟨_, _, _, rfl, rfl, rfl, rfl, rfl, fun _ => ⟨rfl, rfl⟩, fun c => ?_⟩
    simp [Shows, he]
  | some e =>
    have hshows : ∀ c, c ∈ e.view.childIds ↔ s.Shows m.param.id c := by
      intro c
      simp [Shows, he]
    dsimp only
    by_cases hkind : e.param.kind = m.param.kind
    · rw [if_pos hkind]
      exact ⟨_, _, _, rfl, rfl, (hs.kind_eq _ e he).trans hkind, rfl, rfl, fun _ => ⟨rfl, rfl⟩,
        hshows⟩
    · rw [if_neg hkind]
      exact ⟨_, _, _, rfl, rfl, rfl, rfl, rfl, fun _ => ⟨rfl, rfl⟩, hshows⟩

theorem mounts_eq {e : Editor} (h : e.kind = e.param.kind) : e.mounts = panelMounts e.param := by
  rw [Editor.mounts, h]
  cases e.param with
  | group i name params hidden => rfl
  | leaf i name control =>
    cases control with
    | choice | scalar | vector | flag | text | unresolved => rfl

theorem height_pos (p : Param) : 0 < p.height := by
  cases p with
  | leaf i name control => exact Nat.one_pos
  | group i name params hidden => exact Nat.succ_pos _

/-- A mount comes in parts: the editor of the definition is painted, and labelled as the mount asks
for, then what its panel asks for is mounted, and what is stale is removed. -/
theorem exists_parts (par : Option ParamId) (labelled : Bool) (hT : IsTreeLike ns)
    (hnodup : p.ids.Nodup) (hns : p.nodes ⊆ ns) (hs : s.IsOrderly ns)
    (hmount : ∀ m ∈ panelMounts p, ∀ s : EditorTree, s.IsOrderly ns →
      Mounting ns [m.param] (some p.id) s (mountWithin bound (some p.id) s m)) :
    ∃ t gone, Parts ns p par s t ((panelMounts p).foldl (mountWithin bound (some p.id)) t)
        (mountWithin (bound + 1) par s ⟨p, labelled⟩) gone ∧
      ∀ e, t.get? p.id = some e → e.labelled = labelled := by
  obtain ⟨e, s₁, previous, heditor, hparam, hkind, hlabelled, hroots, hsame, hprevious⟩ :=
    editorFor_eq hs ⟨p, labelled⟩
  have hmounts : e.rebuild.mounts = panelMounts p := by
    rw [mounts_eq (e := e.rebuild) (by simp [Editor.rebuild, hparam, hkind])]
    simp [Editor.rebuild, hparam]
  simp only [mountWithin, heditor, hmounts]
  have htop : ((s₁.setEditor p.id e.rebuild).setParent p.id par).Painted p par := by
    refine ⟨⟨e.rebuild, by simp, hparam, hkind, rfl⟩, by simp⟩
  have hlabel : ∀ x, ((s₁.setEditor p.id e.rebuild).setParent p.id par).get? p.id = some x →
      x.labelled = labelled := by
    intro x hx
    simp only [get?_setParent, get?_setEditor, if_true, Option.some_inj] at hx
    exact hx ▸ hlabelled
  have hkeep : ∀ z, z ≠ p.id →
      ((s₁.setEditor p.id e.rebuild).setParent p.id par).get? z = s.get? z ∧
      ((s₁.setEditor p.id e.rebuild).setParent p.id par).parent? z = s.parent? z := by
    intro z hz
    simp [hz.symm, hsame z]
  have hroots' : ((s₁.setEditor p.id e.rebuild).setParent p.id par).roots = s.roots := by
    simpa using hroots
  -- From here on, only what these facts say about the painted tree matters.
  generalize (s₁.setEditor p.id e.rebuild).setParent p.id par = t at htop hlabel hkeep hroots' ⊢
  have ht := hs.paint hns htop hkeep
  have hsub : ∀ q ∈ p.panel, q.nodes ⊆ ns := fun q hq => Param.nodes_subset_of_mem_panel hns hq
  have hpanel : Mounting ns p.panel (some p.id) t
      ((panelMounts p).foldl (mountWithin bound (some p.id)) t) :=
    mounting_foldl ht (fun m hm => hsub m.param (List.mem_map_of_mem hm))
      (hT.apart_panel hnodup hns) hmount
  have hafter := hpanel.isOrderly ht hsub
  have hremoval := removal_foldl_remove hafter.isTidy
  refine ⟨t, _, ⟨hns, hs, ht, htop, hroots', hkeep, hpanel, hremoval _, fun c => ?_⟩, hlabel⟩
  simp [hprevious, Param.panel]

/-- Within a sufficient depth, a mount does what it has to do. -/
theorem mounting_mountWithin (hT : IsTreeLike ns) (hheight : p.height ≤ bound)
    (hnodup : p.ids.Nodup) (hns : p.nodes ⊆ ns) (hs : s.IsOrderly ns) :
    Mounting ns [p] par s (mountWithin bound par s ⟨p, labelled⟩) := by
  induction bound generalizing p par s labelled with
  | zero => exact absurd hheight (Nat.not_le_of_gt (height_pos p))
  | succ bound ih =>
    have hmount : ∀ m ∈ panelMounts p, ∀ s : EditorTree, s.IsOrderly ns →
        Mounting ns [m.param] (some p.id) s (mountWithin bound (some p.id) s m) := by
      intro m hm s' hs'
      have hc : m.param ∈ p.panel := List.mem_map_of_mem hm
      have hlt := Param.height_lt_of_mem_panel hc
      exact ih (by omega) (Param.nodup_ids_of_mem_panel hnodup hc)
        (Param.nodes_subset_of_mem_panel hns hc) hs'
    obtain ⟨t, gone, hparts, -⟩ := exists_parts par labelled hT hnodup hns hs hmount
    exact hparts.mounting hT

theorem mounting_mount (hT : IsTreeLike ns) (hnodup : p.ids.Nodup) (hns : p.nodes ⊆ ns)
    (hs : s.IsOrderly ns) : Mounting ns [p] par s (s.mount ⟨p, labelled⟩ par) :=
  mounting_mountWithin hT (Nat.le_refl _) hnodup hns hs

end EditorTree

end LiveTuner
