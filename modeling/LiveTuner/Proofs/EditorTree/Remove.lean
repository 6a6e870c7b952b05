import LiveTuner.EditorTree.Basic
import Mathlib.Logic.Relation
import Mathlib.Tactic.ByContra
import Mathlib.Tactic.Push

/-!
# Removing editors

Taking an editor away takes away everything that can be reached from it along the panels, and
nothing else. The walk that does so follows the panels as they are while it goes on, and is bounded
by the number of editors; the statement here is about the panels as they were before.

## Main definitions

* `EditorTree.Shows` — the panel of an editor shows an id
* `EditorTree.IsTidy` — no group is recorded above an id without an editor
* `EditorTree.KeptOrGone` — an id is as it was or has nothing left
* `EditorTree.Removal` — what can be reached from some ids is gone, all else as it was

## Main results

* `EditorTree.removal_remove`, `EditorTree.removal_foldl_remove` — removing is such a removal
-/

namespace LiveTuner

namespace EditorTree

open Relation

variable {s s' t : EditorTree} {c g id y z : ParamId} {ids ids' : List ParamId} {e : Editor}

/-! ### Editors and the groups above them -/

@[simp] theorem get?_setEditor (t : EditorTree) (id z : ParamId) (e : Editor) :
    (t.setEditor id e).get? z = if id = z then some e else t.get? z := by
  simp [setEditor, get?, Std.ExtTreeMap.getElem?_insert]

theorem contains_eq_isSome (t : EditorTree) (id : ParamId) :
    t.contains id = (t.get? id).isSome := by
  rw [contains, get?, Std.ExtTreeMap.contains_eq_isSome_getElem?]

@[simp] theorem parent?_setEditor (t : EditorTree) (id z : ParamId) (e : Editor) :
    (t.setEditor id e).parent? z = t.parent? z := rfl

@[simp] theorem roots_setEditor (t : EditorTree) (id : ParamId) (e : Editor) :
    (t.setEditor id e).roots = t.roots := rfl

@[simp] theorem get?_setParent (t : EditorTree) (id z : ParamId) (par : Option ParamId) :
    (t.setParent id par).get? z = t.get? z := by
  cases par with
  | none => rfl
  | some g => rfl

@[simp] theorem parent?_setParent (t : EditorTree) (id z : ParamId) (par : Option ParamId) :
    (t.setParent id par).parent? z = if id = z then par else t.parent? z := by
  cases par with
  | none => simp [setParent, parent?, Std.ExtTreeMap.getElem?_erase]
  | some g => simp [setParent, parent?, Std.ExtTreeMap.getElem?_insert]

@[simp] theorem roots_setParent (t : EditorTree) (id : ParamId) (par : Option ParamId) :
    (t.setParent id par).roots = t.roots := by
  cases par with
  | none => rfl
  | some g => rfl

@[simp] theorem get?_eraseEditor (t : EditorTree) (id z : ParamId) :
    (t.eraseEditor id).get? z = if id = z then none else t.get? z := by
  simp [eraseEditor, get?, Std.ExtTreeMap.getElem?_erase]

@[simp] theorem parent?_eraseEditor (t : EditorTree) (id z : ParamId) :
    (t.eraseEditor id).parent? z = if id = z then none else t.parent? z := by
  simp [eraseEditor, parent?, Std.ExtTreeMap.getElem?_erase]

theorem mem_editors_of_get?_eq_some (h : t.get? id = some e) : id ∈ t.editors := by
  rw [Std.ExtTreeMap.mem_iff_isSome_getElem?]
  exact Option.isSome_iff_exists.mpr ⟨e, h⟩

theorem size_eraseEditor_lt (h : t.get? id = some e) : (t.eraseEditor id).size < t.size := by
  have hmem := mem_editors_of_get?_eq_some h
  have hpos : 0 < t.size := by
    by_contra hzero
    have hempty : t.editors = ∅ := Std.ExtTreeMap.eq_empty_iff_size_eq_zero.mpr
      (Nat.eq_zero_of_not_pos hzero)
    rw [hempty] at hmem
    exact Std.ExtTreeMap.not_mem_empty hmem
  have hsize : (t.eraseEditor id).size = t.size - 1 := by
    simp [eraseEditor, size, Std.ExtTreeMap.size_erase, hmem]
  omega

theorem get?_of_size_eq_zero (h : t.size = 0) (id : ParamId) : t.get? id = none := by
  rw [get?, Std.ExtTreeMap.eq_empty_iff_size_eq_zero.mpr h]
  exact Std.ExtTreeMap.getElem?_empty

/-- The panel of the editor of `g` shows the id `c`. -/
def Shows (t : EditorTree) (g c : ParamId) : Prop := ∃ e, t.get? g = some e ∧ c ∈ e.view.childIds

/-- No group is recorded above an id that has no editor. -/
def IsTidy (t : EditorTree) : Prop := ∀ id, t.get? id = none → t.parent? id = none

theorem Shows.of_get?_eq (h : s.Shows g c) (heq : t.get? g = s.get? g) : t.Shows g c := by
  obtain ⟨e, he, hc⟩ := h
  exact ⟨e, heq.trans he, hc⟩

theorem Shows.get?_ne_none (h : t.Shows g c) : t.get? g ≠ none := by
  obtain ⟨e, he, -⟩ := h
  rw [he]
  exact Option.some_ne_none e

/-- An id is as it was, or it has neither an editor nor a group above it any more. -/
def KeptOrGone (s s' : EditorTree) (z : ParamId) : Prop :=
  s'.get? z = s.get? z ∧ s'.parent? z = s.parent? z ∨ s'.get? z = none ∧ s'.parent? z = none

theorem KeptOrGone.trans (h : KeptOrGone s s' z) (h' : KeptOrGone s' t z) : KeptOrGone s t z := by
  rcases h' with ⟨hget, hparent⟩ | hgone
  · rw [KeptOrGone, hget, hparent]
    exact h
  · exact Or.inr hgone

theorem keptOrGone_foldl {f : EditorTree → ParamId → EditorTree}
    (hf : ∀ s y, KeptOrGone s (f s y) z) (s : EditorTree) (ids : List ParamId) :
    KeptOrGone s (ids.foldl f s) z := by
  induction ids generalizing s with
  | nil => exact Or.inl ⟨rfl, rfl⟩
  | cons y rest ih => exact (hf s y).trans (ih (f s y))

/-- Removing changes nothing but what it takes away, wherever the panels lead. -/
theorem keptOrGone_remove (s : EditorTree) (id z : ParamId) : KeptOrGone s (s.remove id) z := by
  have hwithin : ∀ bound s id, KeptOrGone s (removeWithin bound s id) z := by
    intro bound
    induction bound with
    | zero => exact fun _ _ => Or.inl ⟨rfl, rfl⟩
    | succ bound ih =>
      intro s id
      rw [removeWithin]
      cases s.get? id with
      | none => exact Or.inl ⟨rfl, rfl⟩
      | some e =>
        have hfirst : KeptOrGone s (s.eraseEditor id) z := by
          by_cases hz : id = z
          · exact Or.inr (by simp [hz])
          · exact Or.inl (by simp [hz])
        exact hfirst.trans (keptOrGone_foldl ih _ _)
  exact hwithin s.size s id

/-! ### Removals -/

/-- The editors that can be reached from some ids along the panels are gone, with what was recorded
above them; all others are as they were. -/
structure Removal (s s' : EditorTree) (ids : List ParamId) : Prop where
  /-- What could be reached is gone. -/
  gone : ∀ y ∈ ids, ∀ z, ReflTransGen s.Shows y z → s'.get? z = none ∧ s'.parent? z = none
  /-- What could not be reached is as it was. -/
  kept : ∀ z, (∀ y ∈ ids, ¬ ReflTransGen s.Shows y z) →
    s'.get? z = s.get? z ∧ s'.parent? z = s.parent? z
  /-- The topmost ids stay. -/
  roots_eq : s'.roots = s.roots
  /-- There are no more editors than before. -/
  size_le : s'.size ≤ s.size

namespace Removal

/-- An id is as it was, or gone. -/
theorem kept_or_gone (h : Removal s s' ids) (z : ParamId) : KeptOrGone s s' z := by
  by_cases hz : ∀ y ∈ ids, ¬ ReflTransGen s.Shows y z
  · exact Or.inl (h.kept z hz)
  · push Not at hz
    obtain ⟨y, hy, hyz⟩ := hz
    exact Or.inr (h.gone y hy z hyz)

theorem get?_eq_none (h : Removal s s' ids) (hz : s.get? z = none) : s'.get? z = none := by
  rcases h.kept_or_gone z with ⟨hget, -⟩ | ⟨hget, -⟩
  · exact hget.trans hz
  · exact hget

theorem get?_eq_of_ne_none (h : Removal s s' ids) (hz : s'.get? z ≠ none) :
    s'.get? z = s.get? z ∧ s'.parent? z = s.parent? z := by
  rcases h.kept_or_gone z with hkept | ⟨hget, -⟩
  · exact hkept
  · exact absurd hget hz

/-- Only what could be reached is gone. -/
theorem exists_reach (h : Removal s s' ids) (hz : s.get? z ≠ none) (hz' : s'.get? z = none) :
    ∃ y ∈ ids, ReflTransGen s.Shows y z := by
  by_contra hnone
  push Not at hnone
  exact hz ((h.kept z hnone).1.symm.trans hz')

theorem shows (h : Removal s s' ids) (hgc : s'.Shows g c) : s.Shows g c :=
  hgc.of_get?_eq (h.get?_eq_of_ne_none hgc.get?_ne_none).1.symm

theorem isTidy (h : Removal s s' ids) (hs : s.IsTidy) : s'.IsTidy := by
  intro z hz
  rcases h.kept_or_gone z with ⟨hget, hparent⟩ | ⟨-, hparent⟩
  · exact hparent.trans (hs z (hget.symm.trans hz))
  · exact hparent

theorem refl (s : EditorTree) : Removal s s [] where
  gone _ hy := absurd hy List.not_mem_nil
  kept _ _ := ⟨rfl, rfl⟩
  roots_eq := rfl
  size_le := Nat.le_refl _

/-- Of two removals one after the other, the second reaches no further than it would have at the
start. -/
theorem trans (h : Removal s s' ids) (h' : Removal s' t ids') (hs : s.IsTidy) :
    Removal s t (ids ++ ids') := by
  have htidy := h'.isTidy (h.isTidy hs)
  refine ⟨fun y hy z hyz => ?_, fun z hz => ?_, h'.roots_eq.trans h.roots_eq,
    Nat.le_trans h'.size_le h.size_le⟩
  · suffices hget : t.get? z = none from ⟨hget, htidy z hget⟩
    rcases List.mem_append.mp hy with hy | hy
    · exact h'.get?_eq_none (h.gone y hy z hyz).1
    · -- A path that leaves what the first removal left had been cut by it.
      induction hyz with
      | refl => exact (h'.gone y hy y .refl).1
      | @tail w z hyw hwz ih =>
        by_cases hw : s'.get? w = none
        · obtain ⟨x, hx, hxw⟩ := h.exists_reach hwz.get?_ne_none hw
          exact h'.get?_eq_none (h.gone x hx z (hxw.tail hwz)).1
        · obtain ⟨x, hx, hxw⟩ := h'.exists_reach hw ih
          have hstep : s'.Shows w z := hwz.of_get?_eq (h.get?_eq_of_ne_none hw).1
          exact (h'.gone x hx z (hxw.tail hstep)).1
  · have hfirst := h.kept z fun y hy => hz y (List.mem_append_left _ hy)
    have hsecond := h'.kept z fun y hy hyz =>
      hz y (List.mem_append_right _ hy) (ReflTransGen.mono (fun _ _ => h.shows) _ _ hyz)
    exact ⟨hsecond.1.trans hfirst.1, hsecond.2.trans hfirst.2⟩

end Removal

/-- One removal after the other, as long as each is a removal. -/
theorem removal_foldl {f : EditorTree → ParamId → EditorTree} {bound : Nat}
    (hf : ∀ s : EditorTree, ∀ y, s.size ≤ bound → s.IsTidy → Removal s (f s y) [y])
    (hsize : s.size ≤ bound) (hs : s.IsTidy) (ids : List ParamId) :
    Removal s (ids.foldl f s) ids := by
  induction ids generalizing s with
  | nil => exact .refl s
  | cons y rest ih =>
    have hfirst := hf s y hsize hs
    exact hfirst.trans (ih (Nat.le_trans hfirst.size_le hsize) (hfirst.isTidy hs)) hs

theorem isTidy_eraseEditor (hs : s.IsTidy) (id : ParamId) : (s.eraseEditor id).IsTidy := by
  intro z hz
  by_cases hzid : id = z
  · simp [hzid]
  · simp only [get?_eraseEditor, parent?_eraseEditor, if_neg hzid] at hz ⊢
    exact hs z hz

theorem Shows.of_eraseEditor (h : (s.eraseEditor id).Shows g c) : s.Shows g c := by
  obtain ⟨e, he, hc⟩ := h
  refine ⟨e, ?_, hc⟩
  rw [get?_eraseEditor] at he
  split at he
  · cases he
  · exact he

/-- An editor is erased, and then what its panel showed is removed: that removes the editor. -/
theorem Removal.of_eraseEditor (hs : s.IsTidy) (he : s.get? id = some e)
    (h : Removal (s.eraseEditor id) s' e.view.childIds) : Removal s s' [id] := by
  have htidy := h.isTidy (isTidy_eraseEditor hs id)
  have hsize := Nat.le_of_lt (size_eraseEditor_lt he)
  refine ⟨fun y hy z hyz => ?_, fun z hz => ?_, h.roots_eq, Nat.le_trans h.size_le hsize⟩
  · obtain rfl := List.mem_singleton.mp hy
    suffices hget : s'.get? z = none from ⟨hget, htidy z hget⟩
    -- Along the path, everything is gone: the first step leads to what the panel showed.
    induction hyz with
    | refl => exact h.get?_eq_none (by simp)
    | @tail w z hyw hwz ih =>
      by_cases hw : y = w
      · obtain ⟨e', he', hc⟩ := hwz
        rw [← hw, he] at he'
        exact (h.gone z (Option.some.inj he' ▸ hc) z .refl).1
      · have hstep : (s.eraseEditor y).Shows w z := hwz.of_get?_eq (by simp [hw])
        obtain ⟨x, hx, hxw⟩ := h.exists_reach hstep.get?_ne_none ih
        exact (h.gone x hx z (hxw.tail hstep)).1
  · have hid : ¬ ReflTransGen s.Shows id z := hz id (List.mem_singleton_self id)
    have hne : id ≠ z := by
      rintro rfl
      exact hid .refl
    have hkept := h.kept z fun c hc hcz =>
      hid (.head ⟨e, he, hc⟩ (ReflTransGen.mono (fun _ _ => Shows.of_eraseEditor) _ _ hcz))
    simpa [hne] using hkept

/-- A walk with a sufficient bound removes what can be reached. -/
theorem removal_removeWithin {bound : Nat} (hsize : s.size ≤ bound) (hs : s.IsTidy)
    (id : ParamId) : Removal s (removeWithin bound s id) [id] := by
  induction bound generalizing s id with
  | zero =>
    have hnone := get?_of_size_eq_zero (Nat.le_zero.mp hsize)
    exact ⟨fun _ _ z _ => ⟨hnone z, hs z (hnone z)⟩, fun _ _ => ⟨rfl, rfl⟩, rfl, Nat.le_refl _⟩
  | succ bound ih =>
    rw [removeWithin]
    cases he : s.get? id with
    | none =>
      -- An id without an editor shows nothing, so nothing else can be reached from it.
      refine ⟨fun y hy z hyz => ?_, fun _ _ => ⟨rfl, rfl⟩, rfl, Nat.le_refl _⟩
      obtain rfl := List.mem_singleton.mp hy
      rcases hyz.cases_head with rfl | ⟨w, hw, -⟩
      · exact ⟨he, hs y he⟩
      · exact absurd he hw.get?_ne_none
    | some e =>
      -- One editor less is left to the walks that go on, so their bound suffices.
      have hlt := size_eraseEditor_lt he
      have hrest := removal_foldl (f := removeWithin bound) (fun s y h h' => ih h h' y)
        (by omega) (isTidy_eraseEditor hs id) e.view.childIds
      exact .of_eraseEditor hs he hrest

theorem removal_remove (hs : s.IsTidy) (id : ParamId) : Removal s (s.remove id) [id] :=
  removal_removeWithin (Nat.le_refl _) hs id

/-- Removing several ids one after the other removes what could be reached from any of them. -/
theorem removal_foldl_remove (hs : s.IsTidy) (ids : List ParamId) :
    Removal s (ids.foldl remove s) ids :=
  removal_foldl (fun _ y _ h => removal_remove h y) (Nat.le_refl _) hs ids

end EditorTree

end LiveTuner
