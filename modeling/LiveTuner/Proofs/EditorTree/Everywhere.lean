import LiveTuner.Proofs.EditorTree.Ancestors
import LiveTuner.Proofs.Param.Panel

/-!
# What holds everywhere in a tree

A mount makes editors, binds and paints those that are there, records groups above them and takes
others away. What holds of every editor and of every recorded group before therefore holds
afterwards, as soon as it holds of what one step of the walk leaves behind. No assumption about the
ids is needed: the definitions may repeat them, and the walk may take away what it has just mounted.

## Main definitions

* `EditorTree.Satisfies` — something holds of all editors, and something of all recorded groups
* `EditorTree.Allows` — the steps of a walk leave it behind

## Main results

* `EditorTree.Satisfies.mount`, `EditorTree.Satisfies.load` — so the walk does
* `EditorTree.Satisfies.syncAncestors` — and so does taking a definition over, if it holds of an
  editor however a copy in its definition is exchanged
-/

namespace LiveTuner

namespace EditorTree

variable {P : ParamId → Editor → Prop} {L : ParamId → ParamId → Prop} {Q : Param → Prop}
  {s t : EditorTree} {m : Mount} {p : Param} {par : Option ParamId} {id : ParamId} {e : Editor}

/-- `P` holds of all editors with their ids, and `L` of all ids with the groups above them. -/
structure Satisfies (P : ParamId → Editor → Prop) (L : ParamId → ParamId → Prop)
    (t : EditorTree) : Prop where
  /-- Every editor. -/
  editor : ∀ id e, t.get? id = some e → P id e
  /-- Every recorded group. -/
  link : ∀ id g, t.parent? id = some g → L id g

/-- Mounting a definition of which `Q` holds leaves editors with `P` and recorded groups with
`L`. -/
structure Allows (P : ParamId → Editor → Prop) (L : ParamId → ParamId → Prop)
    (Q : Param → Prop) : Prop where
  /-- The panel asks for such definitions, below its group. -/
  panel : ∀ p c, Q p → c ∈ p.panel → Q c ∧ L c.id p.id
  /-- A new editor is such. -/
  created : ∀ (m : Mount) (serial : Nat), Q m.param →
    P m.param.id (Editor.create m.param m.labelled serial).rebuild
  /-- So is one of the same kind that is bound to such a definition. -/
  bound : ∀ (m : Mount) (e : Editor), Q m.param → P m.param.id e → e.param.kind = m.param.kind →
    P m.param.id ({ e.bind m.param with labelled := m.labelled } : Editor).rebuild

namespace Satisfies

theorem setEditor (h : t.Satisfies P L) (he : P id e) : (t.setEditor id e).Satisfies P L := by
  refine ⟨fun z x hx => ?_, h.link⟩
  rw [get?_setEditor] at hx
  split at hx
  · next hz =>
    obtain rfl := Option.some.inj hx
    exact hz ▸ he
  · exact h.editor z x hx

theorem setParent (h : t.Satisfies P L) (hpar : ∀ g, par = some g → L id g) :
    (t.setParent id par).Satisfies P L := by
  refine ⟨fun z x hx => h.editor z x (by simpa using hx), fun z g hz => ?_⟩
  rw [parent?_setParent] at hz
  split at hz
  · next hid => exact hid ▸ hpar g hz
  · exact h.link z g hz

theorem of_keptOrGone (h : s.Satisfies P L) (hkept : ∀ z, KeptOrGone s t z) :
    t.Satisfies P L := by
  refine ⟨fun z x hx => ?_, fun z g hz => ?_⟩
  · rcases hkept z with ⟨hget, -⟩ | ⟨hnone, -⟩
    · exact h.editor z x (hget.symm.trans hx)
    · simp [hnone] at hx
  · rcases hkept z with ⟨-, hparent⟩ | ⟨-, hnone⟩
    · exact h.link z g (hparent.symm.trans hz)
    · simp [hnone] at hz

/-- Whichever editor is taken for a mount, it is bound to the definition and may be painted. -/
theorem editorFor (h : s.Satisfies P L) (hallows : Allows P L Q) (hm : Q m.param) :
    P m.param.id (s.editorFor m).1.rebuild ∧ (s.editorFor m).1.param = m.param ∧
      (s.editorFor m).2.1.Satisfies P L := by
  rw [EditorTree.editorFor]
  cases he : s.get? m.param.id with
  | none => exact ⟨hallows.created m _ hm, rfl, h.editor, h.link⟩
  | some e =>
    dsimp only
    by_cases hkind : e.param.kind = m.param.kind
    · rw [if_pos hkind]
      exact ⟨hallows.bound m e hm (h.editor _ e he) hkind, rfl, h⟩
    · rw [if_neg hkind]
      exact ⟨hallows.created m _ hm, rfl, h.editor, h.link⟩

theorem mem_panelMounts_of_mem_mounts {e : Editor} (hm : m ∈ e.mounts) :
    m ∈ panelMounts e.param := by
  rw [Editor.mounts] at hm
  split at hm
  · exact hm
  · exact absurd hm List.not_mem_nil

theorem mountWithin (h : s.Satisfies P L) (hallows : Allows P L Q) (hm : Q m.param)
    (hpar : ∀ g, par = some g → L m.param.id g) (bound : Nat) :
    (mountWithin bound par s m).Satisfies P L := by
  induction bound generalizing s m par with
  | zero => exact h
  | succ bound ih =>
    obtain ⟨heditor, hparam, hrest⟩ := h.editorFor hallows hm
    rw [EditorTree.mountWithin]
    generalize s.editorFor m = found at heditor hparam hrest ⊢
    obtain ⟨e, s₁, previous⟩ := found
    dsimp only at heditor hparam hrest ⊢
    have hpainted := (hrest.setEditor heditor).setParent hpar
    -- Each of the mounts for the panel is of a definition that the panel asks for.
    have hpanel : ∀ mounts : List Mount, (∀ m' ∈ mounts, m' ∈ panelMounts m.param) →
        ∀ s : EditorTree, s.Satisfies P L →
          (mounts.foldl (EditorTree.mountWithin bound (some m.param.id)) s).Satisfies P L := by
      intro mounts
      induction mounts with
      | nil => exact fun _ s hs => hs
      | cons m' rest ihrest =>
        intro hmounts s hs
        obtain ⟨hm', hrest'⟩ := List.forall_mem_cons.mp hmounts
        obtain ⟨hq, hlink⟩ := hallows.panel m.param m'.param hm (List.mem_map_of_mem hm')
        refine ihrest hrest' _ (ih hs hq fun g hg => ?_)
        exact Option.some.inj hg ▸ hlink
    refine (hpanel e.rebuild.mounts (fun m' hm' => ?_) _ hpainted).of_keptOrGone fun z =>
      keptOrGone_foldl (fun s y => keptOrGone_remove s y z) _ _
    exact hparam ▸ mem_panelMounts_of_mem_mounts hm'

theorem mount (h : s.Satisfies P L) (hallows : Allows P L Q) (hm : Q m.param)
    (hpar : ∀ g, par = some g → L m.param.id g) : (s.mount m par).Satisfies P L :=
  h.mountWithin hallows hm hpar m.param.height

theorem addRoot (h : s.Satisfies P L) (hallows : Allows P L Q) (hp : Q p) :
    (s.addRoot p).Satisfies P L := by
  have hroots : ({ s with roots := s.roots ++ [p.id] } : EditorTree).Satisfies P L :=
    ⟨h.editor, h.link⟩
  exact hroots.mount (m := ⟨p, true⟩) hallows hp fun g hg => absurd hg (by simp)

theorem foldl_addRoot {ps : List Param} (h : s.Satisfies P L) (hallows : Allows P L Q)
    (hps : ∀ p ∈ ps, Q p) : (ps.foldl EditorTree.addRoot s).Satisfies P L := by
  induction ps generalizing s with
  | nil => exact h
  | cons p rest ih =>
    obtain ⟨hp, hrest⟩ := List.forall_mem_cons.mp hps
    exact ih (h.addRoot hallows hp) hrest

theorem clear (t : EditorTree) : t.clear.Satisfies P L := by
  refine ⟨fun id e he => ?_, fun id g hg => ?_⟩
  · simp [EditorTree.clear, empty, get?] at he
  · simp [EditorTree.clear, empty, parent?] at hg

/-- What may be mounted holds everywhere in a tree that is loaded. -/
theorem load {ps : List Param} (hallows : Allows P L Q) (hps : ∀ p ∈ ps, Q p) (t : EditorTree) :
    (t.load ps).Satisfies P L :=
  (clear t).foldl_addRoot hallows hps

/-! ### Taking a definition over -/

theorem patch (h : t.Satisfies P L) (hP : ∀ id e, P id e → P id (patchEditor p e)) (g : ParamId) :
    (patch p t g).Satisfies P L := by
  rw [EditorTree.patch]
  split
  · next e he => exact h.setEditor (hP g e (h.editor g e he))
  · exact h

theorem foldl_patch (h : t.Satisfies P L) (hP : ∀ id e, P id e → P id (patchEditor p e))
    (l : List ParamId) : (l.foldl (EditorTree.patch p) t).Satisfies P L := by
  apply kept_by_foldl_patch (P := fun u => u.Satisfies P L) _ h
  exact fun u g hu => hu.patch hP g

theorem syncAncestors (h : s.Satisfies P L)
    (hP : ∀ z x, P z x → ∀ id e, P id e → P id (patchEditor x.param e))
    (ht : s.syncAncestors id = some t) : t.Satisfies P L := by
  apply kept_by_syncAncestors (P := fun u => u.Satisfies P L) _ h ht
  exact fun x u g hx hu => hu.patch (hP id x (h.editor id x hx)) g

end Satisfies

end EditorTree

end LiveTuner
