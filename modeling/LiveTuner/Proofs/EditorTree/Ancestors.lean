import LiveTuner.EditorTree.Change
import LiveTuner.Proofs.EditorTree.Remove
import Mathlib.Data.List.Nodup
import Mathlib.Data.List.Perm.Subperm

/-!
# Walking up

The walk up from an id follows the recorded groups. It ends exactly if it comes to an id without a
group above it, and the bound of the walk, the number of recorded groups, is then never reached,
since no group is met twice.

A change that has reached one editor is taken over into the groups on this way, each of which
exchanges the copy that it holds.

## Main definitions

* `EditorTree.Climbs` — the way up from an id, group by group

## Main results

* `EditorTree.ancestors_eq_some_iff` — the walk finds the way up, and ends exactly if that does
* `EditorTree.get?_foldl_patch` — what the walk leaves behind
* `EditorTree.kept_by_syncAncestors` — what single groups keep, the walk keeps
-/

namespace LiveTuner

namespace EditorTree

variable {t t' : EditorTree} {id z g : ParamId} {l l' : List ParamId} {e : Editor} {p : Param}

/-- The recorded groups above an id are those of a list, the nearest first. -/
inductive Climbs (t : EditorTree) : ParamId → List ParamId → Prop where
  /-- No group is above the id. -/
  | top {id : ParamId} (h : t.parent? id = none) : Climbs t id []
  /-- A group is above the id, and others are above the group. -/
  | up {id g : ParamId} {l : List ParamId} (h : t.parent? id = some g) (hl : Climbs t g l) :
    Climbs t id (g :: l)

theorem Climbs.unique (h : t.Climbs id l) (h' : t.Climbs id l') : l = l' := by
  induction h generalizing l' with
  | top hnone =>
    cases h' with
    | top => rfl
    | up hsome => exact absurd (hnone.symm.trans hsome) (by simp)
  | up hsome _ ih =>
    cases h' with
    | top hnone => exact absurd (hnone.symm.trans hsome) (by simp)
    | up hsome' hl' =>
      obtain rfl := Option.some.inj (hsome.symm.trans hsome')
      rw [ih hl']

/-- The way up from a group on the way is a part of it. -/
theorem Climbs.of_mem (h : t.Climbs id l) (hg : g ∈ l) :
    ∃ l', t.Climbs g l' ∧ l'.length < l.length := by
  induction h with
  | top => exact absurd hg List.not_mem_nil
  | @up id parent rest hsome hl ih =>
    rcases List.mem_cons.mp hg with rfl | hg
    · exact ⟨rest, hl, Nat.lt_succ_self _⟩
    · obtain ⟨l', hl', hlt⟩ := ih hg
      exact ⟨l', hl', Nat.lt_succ_of_lt hlt⟩

/-- A way up that ends does not come round. -/
theorem Climbs.nodup (h : t.Climbs id l) : (id :: l).Nodup := by
  -- A group that came round would be at the end of two ways up of different lengths.
  have hnotMem : ∀ {id l}, t.Climbs id l → id ∉ l := by
    intro id l h hid
    obtain ⟨l', hl', hlt⟩ := h.of_mem hid
    exact absurd (congrArg List.length (hl'.unique h)) (Nat.ne_of_lt hlt)
  induction h with
  | top => exact List.nodup_singleton _
  | up hsome hl ih => exact List.nodup_cons.mpr ⟨hnotMem (.up hsome hl), ih⟩

theorem Climbs.parent?_ne_none (h : t.Climbs id l) (hz : z ∈ (id :: l).dropLast) :
    t.parent? z ≠ none := by
  induction h with
  | top => exact absurd hz List.not_mem_nil
  | up hsome _ ih =>
    rcases List.mem_cons.mp hz with rfl | hz
    · simp [hsome]
    · exact ih hz

theorem mem_parents_keys (h : t.parent? id ≠ none) : id ∈ t.parents.keys := by
  rw [Std.ExtTreeMap.mem_keys, Std.ExtTreeMap.mem_iff_isSome_getElem?]
  exact Option.isSome_iff_ne_none.mpr h

/-- There are at most as many groups above an id as there are links. -/
theorem Climbs.length_le (h : t.Climbs id l) : l.length ≤ t.parents.size := by
  -- Every id on the way but the last one has a link of its own.
  have hsub : (id :: l).dropLast ⊆ t.parents.keys := fun _ hz =>
    mem_parents_keys (h.parent?_ne_none hz)
  have hnodup : (id :: l).dropLast.Nodup := h.nodup.sublist (List.dropLast_sublist _)
  have hlength := (hnodup.subperm hsub).length_le
  rw [Std.ExtTreeMap.length_keys, List.length_dropLast] at hlength
  exact hlength

theorem Climbs.ancestorsWithin_eq {bound : Nat} (h : t.Climbs id l) (hbound : l.length < bound) :
    t.ancestorsWithin bound id = some l := by
  induction h generalizing bound with
  | top hnone =>
    obtain ⟨bound, rfl⟩ := Nat.exists_eq_succ_of_ne_zero (Nat.ne_zero_of_lt hbound)
    simp [ancestorsWithin, hnone]
  | up hsome _ ih =>
    obtain ⟨bound, rfl⟩ := Nat.exists_eq_succ_of_ne_zero (Nat.ne_zero_of_lt hbound)
    simp [ancestorsWithin, hsome, ih (Nat.lt_of_succ_lt_succ hbound)]

/-- The walk up finds the way. -/
theorem Climbs.ancestors_eq (h : t.Climbs id l) : t.ancestors id = some l :=
  h.ancestorsWithin_eq (Nat.lt_succ_of_le h.length_le)

theorem climbs_of_ancestorsWithin_eq {bound : Nat} (h : t.ancestorsWithin bound id = some l) :
    t.Climbs id l := by
  induction bound generalizing id l with
  | zero => simp [ancestorsWithin] at h
  | succ bound ih =>
    rw [ancestorsWithin] at h
    split at h
    · next hnone =>
      obtain rfl := Option.some.inj h
      exact .top hnone
    · next parent hsome =>
      obtain ⟨rest, hrest, rfl⟩ := Option.map_eq_some_iff.mp h
      exact .up hsome (ih hrest)

/-- The walk up ends exactly if the way does. -/
theorem ancestors_eq_some_iff : t.ancestors id = some l ↔ t.Climbs id l :=
  ⟨climbs_of_ancestorsWithin_eq, Climbs.ancestors_eq⟩

/-- The way up depends on the groups recorded along it only. -/
theorem Climbs.congr (h : t.Climbs id l) (hsame : ∀ z ∈ id :: l, t'.parent? z = t.parent? z) :
    t'.Climbs id l := by
  induction h with
  | @top id hnone => exact .top ((hsame id List.mem_cons_self).trans hnone)
  | @up id parent rest hsome _ ih =>
    refine .up ((hsame id List.mem_cons_self).trans hsome) (ih fun z hz => ?_)
    exact hsame z (List.mem_cons_of_mem _ hz)

/-! ### Taking a definition over -/

@[simp] theorem parent?_patch (p : Param) (t : EditorTree) (g z : ParamId) :
    (t.patch p g).parent? z = t.parent? z := by
  rw [patch]
  split
  · exact parent?_setEditor ..
  · rfl

@[simp] theorem roots_patch (p : Param) (t : EditorTree) (g : ParamId) :
    (t.patch p g).roots = t.roots := by
  rw [patch]
  split
  · rfl
  · rfl

theorem get?_patch (p : Param) (t : EditorTree) (g z : ParamId) :
    (t.patch p g).get? z = if z = g then (t.get? z).map (patchEditor p) else t.get? z := by
  rw [patch]
  by_cases hz : z = g
  · subst hz
    cases he : t.get? z with
    | none => simp [he]
    | some e => simp
  · cases he : t.get? g with
    | none => simp [hz]
    | some e => simp [hz, Ne.symm hz]

/-- What a single patch keeps, all patches along a way keep. -/
theorem kept_by_foldl_patch {P : EditorTree → Prop} (hpatch : ∀ u g, P u → P (u.patch p g))
    (h : P t) (l : List ParamId) : P (l.foldl (patch p) t) := by
  induction l generalizing t with
  | nil => exact h
  | cons g rest ih => exact ih (hpatch t g h)

/-- What every patch with the definition of an id keeps is kept when the groups above take that
definition over. -/
theorem kept_by_syncAncestors {P : EditorTree → Prop}
    (hpatch : ∀ e u g, t.get? id = some e → P u → P (u.patch e.param g)) (h : P t)
    (hsync : t.syncAncestors id = some t') : P t' := by
  rw [syncAncestors] at hsync
  cases he : t.get? id with
  | none =>
    rw [he] at hsync
    exact Option.some.inj hsync ▸ h
  | some e =>
    rw [he] at hsync
    obtain ⟨l, -, rfl⟩ := Option.map_eq_some_iff.mp hsync
    exact kept_by_foldl_patch (fun u g => hpatch e u g he) h l

theorem parent?_foldl_patch (p : Param) (l : List ParamId) (t : EditorTree) (z : ParamId) :
    (l.foldl (patch p) t).parent? z = t.parent? z := by
  apply kept_by_foldl_patch (P := fun u => u.parent? z = t.parent? z)
  · intro u g hu
    rw [parent?_patch, hu]
  · rfl

theorem roots_foldl_patch (p : Param) (l : List ParamId) (t : EditorTree) :
    (l.foldl (patch p) t).roots = t.roots := by
  apply kept_by_foldl_patch (P := fun u => u.roots = t.roots)
  · intro u g hu
    rw [roots_patch, hu]
  · rfl

theorem foldl_patch_eq_with (p : Param) (l : List ParamId) (t : EditorTree) :
    ∃ editors, l.foldl (patch p) t = { t with editors } := by
  apply kept_by_foldl_patch (P := fun u => ∃ editors, u = { t with editors })
  · rintro u g ⟨editors, rfl⟩
    rw [patch]
    split
    · exact ⟨_, rfl⟩
    · exact ⟨editors, rfl⟩
  · exact ⟨t.editors, rfl⟩

/-- Every group on the way has exchanged its copy, and no other editor has changed. -/
theorem get?_foldl_patch (h : l.Nodup) (p : Param) (t : EditorTree) (z : ParamId) :
    (l.foldl (patch p) t).get? z = if z ∈ l then (t.get? z).map (patchEditor p) else t.get? z := by
  induction l generalizing t with
  | nil => simp
  | cons g rest ih =>
    obtain ⟨hg, hrest⟩ := List.nodup_cons.mp h
    rw [List.foldl_cons, ih hrest, get?_patch]
    by_cases hz : z = g
    · subst hz
      simp [hg]
    · simp [hz]

theorem syncAncestors_eq (hget : t.get? id = some e) (h : t.Climbs id l) :
    t.syncAncestors id = some (l.foldl (patch e.param) t) := by
  simp [syncAncestors, hget, h.ancestors_eq]

@[simp] theorem view_patchEditor (p : Param) (e : Editor) : (patchEditor p e).view = e.view := by
  rw [patchEditor]
  split
  · rfl
  · rfl

@[simp] theorem kind_patchEditor (p : Param) (e : Editor) : (patchEditor p e).kind = e.kind := by
  rw [patchEditor]
  split
  · rfl
  · rfl

theorem param_patchEditor (p : Param) (e : Editor) :
    (patchEditor p e).param = e.param.replaceDescendant p := by
  rw [patchEditor, Param.replaceDescendant]
  split
  · next hsome =>
    rw [hsome]
    rfl
  · next hnone =>
    rw [hnone]
    rfl

end EditorTree

end LiveTuner
