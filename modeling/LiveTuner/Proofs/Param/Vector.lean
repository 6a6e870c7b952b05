import LiveTuner.Proofs.Param.Controls
import LiveTuner.Proofs.Param.Resolution

/-!
# Vectors and their bounds

A vector keeps its numbers and its bounds in three lists. Only if these are equally long does every
number have bounds to be checked against, and a slider of its own. A definition that is resolved
says so for each vector in it; nothing that is done to parameters later takes it back.

## Main definitions

* `ScalarVector.IsBounded` — each number of a vector has its bounds
* `AreWithin` — numbers are not outside of the bounds at their indices
* `Param.HasVector` — a vector is among the nodes of a parameter
* `Param.IsBounded` — all these vectors are bounded

## Main results

* `Editor.exists_tryVector_eq_ok_iff` — the bounds of each number are read, and decide
* `Definition.isBounded_resolveLeniently` — every definition that comes in is bounded
* `Param.IsBounded.setValue?`, `Param.IsBounded.replaceDescendant` — other values and exchanged
  copies keep a parameter bounded
-/

namespace LiveTuner

/-- Each number of the vector has a lower and an upper bound, and there are no other bounds. -/
structure ScalarVector.IsBounded (v : ScalarVector) : Prop where
  /-- There are as many lower bounds as numbers. -/
  length_min : v.min.length = v.val.length
  /-- There are as many upper bounds as numbers. -/
  length_max : v.max.length = v.val.length

/-- The vector is the control of the parameter or of one below it. -/
def Param.HasVector (p : Param) (v : ScalarVector) : Prop :=
  ∃ q ∈ p.nodes, q.control? = some (.vector v)

/-- Every vector of the parameter and of those below it is bounded. -/
def Param.IsBounded (p : Param) : Prop := ∀ v, p.HasVector v → v.IsBounded

/-- At the index of each number there are bounds, and the number is not outside of these. -/
def AreWithin (xs los his : List Binary64) : Prop :=
  ∀ (i : Nat) (x : Binary64), xs[i]? = some x → ∃ lo hi : Binary64,
    los[i]? = some lo ∧ his[i]? = some hi ∧ x.lt lo = false ∧ hi.lt x = false

/-! ### Numbers and sliders -/

namespace ScalarVector

variable {v : ScalarVector}

theorem component?_isSome_iff (h : v.IsBounded) (index : Nat) :
    (v.component? index).isSome ↔ index < v.val.length := by
  constructor
  · intro hsome
    by_contra hout
    have hval : v.val[index]? = none := List.getElem?_eq_none (Nat.le_of_not_lt hout)
    simp [component?, hval] at hsome
  · intro hin
    have hmin : index < v.min.length := h.length_min ▸ hin
    have hmax : index < v.max.length := h.length_max ▸ hin
    simp [component?, hin, hmin, hmax]

/-- The components stand at the indices of the numbers. -/
theorem getElem?_components (h : v.IsBounded) (index : Nat) :
    v.components[index]? = v.component? index := by
  obtain ⟨val, min, max, logScale, step, integral⟩ := v
  obtain ⟨hmin, hmax⟩ := h
  dsimp only at hmin hmax
  induction val generalizing min max index with
  | nil => simp [components, component?]
  | cons x xs ih =>
    obtain ⟨lo, los, rfl⟩ := List.exists_cons_of_length_eq_add_one hmin
    obtain ⟨hi, his, rfl⟩ := List.exists_cons_of_length_eq_add_one hmax
    rw [Editor.components_cons]
    cases index with
    | zero => rfl
    | succ index => exact ih index los his (Nat.succ.inj hmin) (Nat.succ.inj hmax)

theorem length_components (h : v.IsBounded) : v.components.length = v.val.length := by
  rw [components, List.filterMap_length_eq_length.mpr, List.length_range]
  intro index hindex
  exact (component?_isSome_iff h index).mpr (List.mem_range.mp hindex)

end ScalarVector

namespace Editor

variable {v : ScalarVector} {xs : List Binary64}

theorem areWithin_cons_iff {x lo hi : Binary64} {los his : List Binary64} :
    AreWithin (x :: xs) (lo :: los) (hi :: his) ↔
      (x.lt lo || hi.lt x) = false ∧ AreWithin xs los his := by
  rw [AreWithin, ← Nat.and_forall_add_one, Bool.or_eq_false_iff]
  simp [AreWithin]

/-- With bounds for each number, none is outside if each is read with its bounds and is not. -/
theorem firstOutside?_eq_none_iff {los his : List Binary64} (hlos : los.length = xs.length)
    (hhis : his.length = xs.length) (index : Nat) :
    firstOutside? index xs los his = none ↔ AreWithin xs los his := by
  induction xs generalizing index los his with
  | nil => simp [firstOutside?, AreWithin]
  | cons x xs ih =>
    obtain ⟨lo, los, rfl⟩ := List.exists_cons_of_length_eq_add_one hlos
    obtain ⟨hi, his, rfl⟩ := List.exists_cons_of_length_eq_add_one hhis
    rw [firstOutside?, areWithin_cons_iff,
      ← ih (Nat.succ.inj hlos) (Nat.succ.inj hhis) (index + 1)]
    cases x.lt lo || hi.lt x <;> simp

/-- Numbers are stored in a bounded vector exactly if there are as many as before and each of them,
with the bounds at its index, is not outside these. -/
theorem exists_tryVector_eq_ok_iff (h : v.IsBounded) (e : Editor) :
    (∃ result, e.tryVector v xs = .ok result) ↔
      xs.length = v.val.length ∧ AreWithin xs v.min v.max := by
  rw [tryVector]
  by_cases hlength : xs.length = v.val.length
  · have hmin : v.min.length = xs.length := h.length_min.trans hlength.symm
    have hmax : v.max.length = xs.length := h.length_max.trans hlength.symm
    rw [if_neg (not_not_intro hlength), ← firstOutside?_eq_none_iff hmin hmax 0]
    cases hfirst : firstOutside? 0 xs v.min v.max with
    | none => simp [hlength]
    | some refusal => simp [refuse]
  · simp [hlength, refuse]

end Editor

/-! ### Vectors in parameters -/

namespace Param

variable {p q r : Param} {v : ScalarVector} {i : ParamId} {name : String} {control : Control}
  {params : List (String × Param)} {hidden : List String}

theorem hasVector_leaf_iff : (leaf i name control).HasVector v ↔ control = .vector v := by
  simp [HasVector, nodes, control?]

/-- A parameter is bounded if all vectors among its controls are. -/
theorem isBounded_iff_allControls :
    p.IsBounded ↔ p.AllControls fun _ c => ∀ v, c = .vector v → v.IsBounded := by
  constructor
  · rintro h q hq c hc v rfl
    exact h v ⟨q, hq, hc⟩
  · rintro h v ⟨q, hq, hv⟩
    exact h q hq _ hv v rfl

theorem isBounded_leaf_iff :
    (leaf i name control).IsBounded ↔ ∀ v, control = .vector v → v.IsBounded := by
  rw [isBounded_iff_allControls, allControls_leaf_iff]

theorem isBounded_group_iff :
    (group i name params hidden).IsBounded ↔ ∀ c ∈ params.map Prod.snd, c.IsBounded := by
  simp only [isBounded_iff_allControls, allControls_group_iff]

theorem IsBounded.of_mem_nodes (h : p.IsBounded) (hq : q ∈ p.nodes) : q.IsBounded :=
  isBounded_iff_allControls.mpr ((isBounded_iff_allControls.mp h).of_mem_nodes hq)

/-- Another value leaves a parameter bounded, as vectors take as many numbers as they have. -/
theorem IsBounded.revalued {c c' : Control} (h : (leaf i name c).IsBounded)
    (hc : c.Revalued c') : (leaf i name c').IsBounded := by
  rw [isBounded_leaf_iff] at h ⊢
  rintro v' rfl
  cases c with
  | vector v =>
    obtain ⟨heq, hlength⟩ := hc
    obtain ⟨hmin, hmax⟩ := h v rfl
    rw [heq] at hlength ⊢
    exact ⟨hmin.trans hlength.symm, hmax.trans hlength.symm⟩
  | choice | scalar | flag | text | unresolved => exact hc.elim

theorem IsBounded.setValue? {val : Value} (h : p.IsBounded) (hset : p.setValue? val = some q) :
    q.IsBounded := by
  cases p with
  | group => cases hset
  | leaf i name control =>
    obtain ⟨control', hcontrol, rfl⟩ := Option.map_eq_some_iff.mp hset
    exact h.revalued (Editor.revalued_of_setValue? hcontrol)

/-- An exchanged copy brings the vectors of its replacement, and no others. -/
theorem IsBounded.replaceDescendant (h : p.IsBounded) (hr : r.IsBounded) :
    (p.replaceDescendant r).IsBounded := by
  rw [isBounded_iff_allControls] at h hr ⊢
  exact h.replaceDescendant hr

end Param

/-! ### Vectors in definitions -/

namespace Definition

variable {d : Definition} {v : ScalarVector}

/-- A bound that is set for every index is as long as the value. -/
theorem length_of_broadcast? {length : Nat} {bound : Bound} {xs : List Binary64}
    (h : broadcast? length bound = some xs) : xs.length = length := by
  cases bound with
  | uniform x =>
    obtain rfl := Option.some.inj h
    exact List.length_replicate
  | perIndex ys =>
    rw [broadcast?] at h
    split_ifs at h with hlength
    exact Option.some.inj h ▸ hlength

/-- A vector has the bounds of its definition, set for as many indices as there are numbers. Without
a lower bound, zero is set for every index. -/
theorem bounds_of_vector {items : List Json} {max : Bound}
    (h : d.vector items max = .ok (.vector v)) :
    broadcast? v.val.length max = some v.max ∧
      (d.min = none ∧ v.min = List.replicate v.val.length .zero ∨
        ∃ min, d.min = some min ∧ broadcast? v.val.length min = some v.min) := by
  rw [vector.eq_def] at h
  obtain ⟨val, -, h⟩ := exists_of_bind_eq_ok h
  dsimp only at h
  split at h
  · next his hmax =>
    rw [pure_bind] at h
    split at h
    · next hmin =>
      cases h
      exact ⟨hmax, Or.inl ⟨hmin, rfl⟩⟩
    · next min hmin =>
      split at h
      · next los hlos =>
        cases h
        exact ⟨hmax, Or.inr ⟨min, hmin, hlos⟩⟩
      · cases h
  · cases h

theorem isBounded_of_vector {items : List Json} {max : Bound}
    (h : d.vector items max = .ok (.vector v)) : v.IsBounded := by
  obtain ⟨hmax, ⟨-, hmin⟩ | ⟨min, -, hmin⟩⟩ := bounds_of_vector h
  · exact ⟨hmin ▸ List.length_replicate, length_of_broadcast? hmax⟩
  · exact ⟨length_of_broadcast? hmin, length_of_broadcast? hmax⟩

theorem scalar_ne_vector (max : Bound) : d.scalar max ≠ .ok (.vector v) := by
  intro h
  rw [scalar.eq_def] at h
  obtain ⟨⟨x, integral⟩, -, h⟩ := exists_of_bind_eq_ok h
  dsimp only at h
  split at h
  · rw [pure_bind] at h
    split at h <;> cases h
  · cases h

/-- Only a definition with an upper bound and a sequence as its value describes a vector. -/
theorem isBounded_of_control (h : d.control = .ok (.vector v)) : v.IsBounded := by
  rw [control.eq_def] at h
  split at h
  · rw [choice] at h
    obtain ⟨options, -, h⟩ := exists_of_bind_eq_ok h
    split at h <;> cases h
  · split at h
    · exact isBounded_of_vector h
    · exact absurd h (scalar_ne_vector _)
  · split at h <;> cases h

/-- Every definition that comes in is bounded, whatever is wrong with definitions in it. -/
theorem isBounded_resolveLeniently (d : Definition) : d.resolveLeniently.IsBounded := by
  induction d using Definition.induction with
  | h d ih =>
    rw [resolveLeniently.eq_def]
    split
    split
    · next members =>
      rw [Param.isBounded_group_iff, map_snd_resolveMembers]
      intro c hc
      obtain ⟨m, hm, rfl⟩ := List.mem_map.mp hc
      exact ih members rfl m hm
    · dsimp only
      split
      · next control hcontrol =>
        rw [Param.isBounded_leaf_iff]
        rintro v rfl
        exact isBounded_of_control hcontrol
      · rw [Param.isBounded_leaf_iff]
        rintro v ⟨⟩

end Definition

end LiveTuner
