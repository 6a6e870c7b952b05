import LiveTuner.Proofs.Param.Finite
import LiveTuner.Proofs.Session.Sending

/-!
# Edits of one component

An edit of one component replaces the number at its index and leaves all others. It goes to the node
as a whole vector, and as a whole it is checked: each number is read with the bounds at its index,
also those that the user has not touched. The values of a node are not checked, be they defined or
pushed. So a number of the node that is outside its bounds stands in the way of every edit of
another component, however good that is; only its own edit can put it right, and none can if there
are two.

## Main definitions

* `ScalarVector.IsOutsideAt` — the number at an index is outside its bounds

## Main results

* `Editor.exists_interact_setComponent_iff` — what an edit of one component depends on
* `Session.isFinite_of_received` — the definitions that come in have finite bounds
* `Session.interact_setComponent_of_turns` — edits of one component in the life of a session
-/

namespace LiveTuner

/-- The number at an index of a vector is below the lower or above the upper bound there. -/
def ScalarVector.IsOutsideAt (v : ScalarVector) (index : Nat) : Prop :=
  ∃ x lo hi, v.val[index]? = some x ∧ v.min[index]? = some lo ∧ v.max[index]? = some hi ∧
    (x.lt lo = true ∨ hi.lt x = true)

/-! ### Editors -/

namespace Editor

variable {e e' : Editor} {v : ScalarVector} {i : ParamId} {name : String} {index : Nat}
  {x : Binary64} {val? : Option Value}

/-- With one number exchanged, a vector is within its bounds if the new number is and all others
are. -/
theorem areWithin_set_iff (h : v.IsBounded) (hindex : index < v.val.length) :
    AreWithin (v.val.set index x) v.min v.max ↔
      (∃ lo hi, v.min[index]? = some lo ∧ v.max[index]? = some hi ∧ x.lt lo = false ∧
        hi.lt x = false) ∧ ∀ j, j ≠ index → ¬ v.IsOutsideAt j := by
  constructor
  · intro hwithin
    refine ⟨hwithin index x (List.getElem?_set_self hindex), ?_⟩
    rintro j hj ⟨y, lo, hi, hy, hlo, hhi, hout⟩
    obtain ⟨lo', hi', hlo', hhi', hbelow, habove⟩ :=
      hwithin j y ((List.getElem?_set_ne hj.symm).trans hy)
    obtain rfl := Option.some.inj (hlo.symm.trans hlo')
    obtain rfl := Option.some.inj (hhi.symm.trans hhi')
    simp [hbelow, habove] at hout
  · rintro ⟨hown, hothers⟩ j y hy
    by_cases hj : j = index
    · subst hj
      rw [List.getElem?_set_self hindex] at hy
      exact Option.some.inj hy ▸ hown
    · rw [List.getElem?_set_ne (Ne.symm hj)] at hy
      have hlength := (List.getElem?_eq_some_iff.mp hy).1
      have hmin : j < v.min.length := h.length_min ▸ hlength
      have hmax : j < v.max.length := h.length_max ▸ hlength
      refine ⟨v.min[j], v.max[j], List.getElem?_eq_getElem hmin, List.getElem?_eq_getElem hmax, ?_⟩
      by_contra hout
      refine hothers j hj ⟨y, v.min[j], v.max[j], hy, List.getElem?_eq_getElem hmin,
        List.getElem?_eq_getElem hmax, ?_⟩
      rwa [← Bool.not_eq_true, ← Bool.not_eq_true, ← not_or, not_not] at hout

theorem interact_setComponent (hkind : e.kind = .vector) (hp : e.param = .leaf i name (.vector v))
    (index : Nat) (x : Binary64) :
    e.interact (.setComponent index x) =
      if index < v.val.length then e.tryVector v (v.val.set index x)
      else e.refuse (.noComponent index) := by
  rw [interact, hkind]
  simp [interactVector, hp, Param.control?]

/-- An edit of one component is taken if there is such a component, the number is not outside the
bounds there, and no other number of the vector is outside its bounds. -/
theorem exists_interact_setComponent_iff (hkind : e.kind = .vector)
    (hp : e.param = .leaf i name (.vector v)) (h : v.IsBounded) :
    (∃ result, e.interact (.setComponent index x) = .ok result) ↔
      (∃ lo hi, v.min[index]? = some lo ∧ v.max[index]? = some hi ∧ x.lt lo = false ∧
        hi.lt x = false) ∧ ∀ j, j ≠ index → ¬ v.IsOutsideAt j := by
  rw [interact_setComponent hkind hp]
  by_cases hindex : index < v.val.length
  · -- The edit keeps the length, so only the bounds can stand in its way.
    rw [if_pos hindex, exists_tryVector_eq_ok_iff h, List.length_set, areWithin_set_iff h hindex]
    exact and_iff_right rfl
  · rw [if_neg hindex]
    refine iff_of_false (fun ⟨_, hok⟩ => refuse_ne_ok hok) ?_
    rintro ⟨⟨lo, hi, hlo, -⟩, -⟩
    exact hindex (h.length_min ▸ (List.getElem?_eq_some_iff.mp hlo).1)

/-- It replaces the number at its index, and the vector goes out as it then is. -/
theorem eq_of_interact_setComponent (hkind : e.kind = .vector)
    (hp : e.param = .leaf i name (.vector v))
    (h : e.interact (.setComponent index x) = .ok (e', val?)) :
    e'.param = .leaf i name (.vector { v with val := v.val.set index x }) ∧
      val? = some (ScalarVector.value { v with val := v.val.set index x }) := by
  rw [interact_setComponent hkind hp] at h
  split_ifs at h
  · obtain ⟨rfl, rfl, -⟩ := tryVector_eq_ok h
    exact ⟨param_storeVector hp _, rfl⟩
  · exact absurd h refuse_ne_ok

end Editor

/-! ### Lives -/

theorem Inbound.isFinite_of_sortDefinitions {items : List Json} :
    ∀ d ∈ (sortDefinitions items).1, d.isFinite = true := by
  induction items with
  | nil => exact fun _ hd => absurd hd List.not_mem_nil
  | cons v rest ih =>
    rw [sortDefinitions]
    dsimp only
    split
    · next d hd => exact List.forall_mem_cons.mpr ⟨Definition.isFinite_of_ofJson v hd, ih⟩
    · exact ih

theorem Inbound.isFinite_of_ofData {v : Json} {ds : List Definition}
    {rejected : List (Json × Mismatch)} (h : ofData v = .definitions ds rejected) :
    ∀ d ∈ ds, d.isFinite = true := by
  unfold ofData at h
  split at h
  · next items =>
    split at h
    · cases h
    · cases h
      exact isFinite_of_sortDefinitions
  · cases h

namespace Session

theorem Turn.isFinite_of_mem_definitions {now : Turn} {d : Definition}
    (hd : d ∈ now.definitions) : d.isFinite = true := by
  unfold Turn.definitions at hd
  split at hd
  · split at hd
    · next payload definitions rejected hclassify =>
      rw [Inbound.classify] at hclassify
      split at hclassify
      · -- A control record brings no definitions.
        rw [Inbound.ofRecord.eq_def] at hclassify
        split at hclassify
        · split at hclassify <;> cases hclassify
        · cases hclassify
      · obtain ⟨v, -, hv⟩ := exists_of_map_eq_ok hclassify
        exact Inbound.isFinite_of_ofData hv d hd
    · exact absurd hd List.not_mem_nil
  · exact absurd hd List.not_mem_nil

variable {s start : Session} {life : List Turn} {id : ParamId} {e : Editor}

/-- The definitions that come in, and all those in them, have finite bounds. -/
theorem isFinite_of_received {d : Definition} (h : d ∈ received life) : d.isFinite = true := by
  obtain ⟨top, htop, hd⟩ := List.mem_flatMap.mp h
  obtain ⟨now, -, hnow⟩ := List.mem_flatMap.mp htop
  exact Definition.isFinite_of_mem_nodes (Turn.isFinite_of_mem_definitions hnow) hd

/-- So the bounds in an editor are numbers. -/
theorem isFinite_bounds_of_turns (hstart : start.IsNew) (hlife : start.turns life = some s)
    (he : s.editors.get? id = some e) {c : Control} (hc : e.param.control? = some c)
    {lo hi : Binary64} (hb : (lo, hi) ∈ c.bounds) : lo.isFinite = true ∧ hi.isFinite = true := by
  have hfrom := (comesFrom_of_turns hstart hlife).editor id e he
  by_cases hkind : c.kind = .unresolved
  · cases c with
    | unresolved => cases hb
    | choice | scalar | vector | flag | text => cases hkind
  · obtain ⟨d, hd, -, hbears⟩ := hfrom.controls e.param (Param.self_mem_nodes _) c hc hkind
    exact hbears.isFinite_bounds (isFinite_of_received hd) hb

/-- A new session lives any life, and the editor of a vector is in it. An edit that makes one
component a number is taken exactly if there is such a component, the number lies between the bounds
there, and no other number of the vector is outside its bounds. It then replaces that component and
leaves all others, and the vector goes out as it is. -/
theorem interact_setComponent_of_turns (hstart : start.IsNew) (hlife : start.turns life = some s)
    (he : s.editors.get? id = some e) (hkind : e.kind = .vector) :
    ∃ name v, e.param = .leaf id name (.vector v) ∧
      ∀ (index : Nat) (x : Binary64), x.isNaN = false →
        ((∃ result, e.interact (.setComponent index x) = .ok result) ↔
          (index < v.val.length ∧ ∃ lo hi, v.min[index]? = some lo ∧ v.max[index]? = some hi ∧
            x.IsBetween lo hi) ∧ ∀ j, j ≠ index → ¬ v.IsOutsideAt j) ∧
        ∀ e' val?, e.interact (.setComponent index x) = .ok (e', val?) →
          e'.param = .leaf id name (.vector { v with val := v.val.set index x }) ∧
            val? = some (ScalarVector.value { v with val := v.val.set index x }) := by
  have hbounds := lasts_isBounded.turns hstart.holdsBounds hlife
  obtain ⟨name, v, hp, hbounded, -⟩ := (hbounds.editors.editor id e he).showsComponents hkind
  refine ⟨name, v, hp, fun index x hx => ⟨?_, fun e' val? h =>
    Editor.eq_of_interact_setComponent hkind hp h⟩⟩
  -- The bounds of the component are numbers, so not to be outside is to be between them.
  have hbetween : ∀ lo hi, v.min[index]? = some lo → v.max[index]? = some hi →
      (x.IsBetween lo hi ↔ x.lt lo = false ∧ hi.lt x = false) := by
    intro lo hi hlo hhi
    have hb : (lo, hi) ∈ (Control.vector v).bounds :=
      List.mem_of_getElem? (i := index) (List.getElem?_zip_eq_some.mpr ⟨hlo, hhi⟩)
    obtain ⟨hlo', hhi'⟩ := isFinite_bounds_of_turns hstart hlife he (by rw [hp]; rfl) hb
    exact Binary64.isBetween_iff_not_outside hx (Binary64.isNaN_eq_false_of_isFinite hlo')
      (Binary64.isNaN_eq_false_of_isFinite hhi')
  rw [Editor.exists_interact_setComponent_iff hkind hp hbounded, and_congr_left_iff]
  intro _
  constructor
  · rintro ⟨lo, hi, hlo, hhi, hinside⟩
    exact ⟨hbounded.length_min ▸ (List.getElem?_eq_some_iff.mp hlo).1, lo, hi, hlo, hhi,
      (hbetween lo hi hlo hhi).mpr hinside⟩
  · rintro ⟨-, lo, hi, hlo, hhi, hinside⟩
    exact ⟨lo, hi, hlo, hhi, (hbetween lo hi hlo hhi).mp hinside⟩

/-- The vector that an editor with an id is bound to, with the kind of the editor. -/
def vectorAt? (s : Session) (id : ParamId) : Option (Kind × ParamId × ScalarVector) :=
  (s.editors.get? id).bind fun e =>
    match e.param.control? with
    | some (.vector v) => some (e.kind, e.param.id, v)
    | _ => none

theorem exists_editor_of_vectorAt? {i : ParamId} {k : Kind} {v : ScalarVector}
    (h : s.vectorAt? id = some (k, i, v)) :
    ∃ e, s.editors.get? id = some e ∧ e.kind = k ∧ e.param = .leaf i e.param.name (.vector v) := by
  obtain ⟨e, he, hfields⟩ := Option.bind_eq_some_iff.mp h
  split at hfields
  · next w hw =>
    cases hfields
    exact ⟨e, he, rfl, Param.eq_leaf_of_control? hw⟩
  · cases hfields

/-- After the numbers have been defined anew and pushed, the second of them may be made as large as
its upper bound, and no larger. -/
theorem interact_setComponent_after_sampleShortening :
    (new none).IsNew ∧ ∃ s e name v, (new none).turns sampleShortening = some s ∧
      s.editors.get? ⟨2⟩ = some e ∧ e.kind = .vector ∧ e.param = .leaf ⟨2⟩ name (.vector v) ∧
      v.val = [.ofInt 6, .ofInt 7] ∧ v.max = [.ofInt 9, .ofInt 8] ∧
      (∃ result, e.interact (.setComponent 1 (.ofInt 8)) = .ok result) ∧
      ¬ ∃ result, e.interact (.setComponent 1 (.ofInt 9)) = .ok result := by
  have hrun : ((new none).turns sampleShortening).bind (·.vectorAt? ⟨2⟩) =
      some (.vector, ⟨2⟩, ⟨[.ofInt 6, .ofInt 7], [.zero, .zero], [.ofInt 9, .ofInt 8], false, none,
        true⟩) := by decide +kernel
  obtain ⟨s, hlife, hs⟩ := Option.bind_eq_some_iff.mp hrun
  obtain ⟨e, he, hkind, hp⟩ := exists_editor_of_vectorAt? hs
  obtain ⟨name, v, hp', hedits⟩ := interact_setComponent_of_turns (.plain none) hlife he hkind
  obtain ⟨-, -, hcontrol⟩ := Param.leaf.inj (hp.symm.trans hp')
  obtain rfl := Control.vector.inj hcontrol
  have hother : ∀ j, j ≠ 1 → ¬ ScalarVector.IsOutsideAt ⟨[.ofInt 6, .ofInt 7], [.zero, .zero],
      [.ofInt 9, .ofInt 8], false, none, true⟩ j := by
    rintro j hj ⟨x, lo, hi, hx, hlo, hhi, hout⟩
    obtain rfl | hlarge : j = 0 ∨ 2 ≤ j := by omega
    · obtain rfl := Option.some.inj hx
      obtain rfl := Option.some.inj hlo
      obtain rfl := Option.some.inj hhi
      exact absurd hout (by decide +kernel)
    · rw [List.getElem?_eq_none hlarge] at hx
      cases hx
  refine ⟨.plain none, s, e, name, _, hlife, he, hkind, hp', rfl, rfl, ?_, ?_⟩
  · refine (hedits 1 (.ofInt 8) (Binary64.isNaN_ofInt 8)).1.mpr ⟨⟨by decide, ?_⟩, hother⟩
    exact ⟨.zero, .ofInt 8, rfl, rfl, by decide +kernel, by decide +kernel⟩
  · intro hok
    obtain ⟨⟨-, lo, hi, -, hhi, -, hle⟩, -⟩ :=
      (hedits 1 (.ofInt 9) (Binary64.isNaN_ofInt 9)).1.mp hok
    cases hhi
    exact absurd hle (by decide +kernel)

/-- The numbers are defined, and the first of them is pushed beyond its bound. -/
def sampleStranding : List Turn :=
  [.connect, .incident (.frame sampleListing), .incident (.frame sampleTint),
    .incident (.frame [0x92, 0x02, 0x93, 0x14, 0x02, 0x03])]

/-- Making the second number five is refused, as the first one is outside its bounds, though five
lies between those of the second. -/
theorem refuses_after_sampleStranding :
    (new none).IsNew ∧ ∃ s e name v, (new none).turns sampleStranding = some s ∧
      s.editors.get? ⟨2⟩ = some e ∧ e.kind = .vector ∧ e.param = .leaf ⟨2⟩ name (.vector v) ∧
      v.val = [.ofInt 20, .ofInt 2, .ofInt 3] ∧ v.min[1]? = some .zero ∧
      v.max[1]? = some (.ofInt 10) ∧ (Binary64.ofInt 5).IsBetween .zero (.ofInt 10) ∧
      e.interact (.setComponent 1 (.ofInt 5)) =
        .error (.refused ⟨2⟩ (.componentOutside 0 (.ofInt 20) .zero (.ofInt 10))) := by
  have hrun : ((new none).turns sampleStranding).bind (·.vectorAt? ⟨2⟩) =
      some (.vector, ⟨2⟩, ⟨[.ofInt 20, .ofInt 2, .ofInt 3], [.zero, .zero, .zero],
        [.ofInt 10, .ofInt 10, .ofInt 10], false, none, true⟩) := by decide +kernel
  obtain ⟨s, hlife, hs⟩ := Option.bind_eq_some_iff.mp hrun
  obtain ⟨e, he, hkind, hp⟩ := exists_editor_of_vectorAt? hs
  have hfirst : Editor.firstOutside? 0 [.ofInt 20, .ofInt 5, .ofInt 3] [.zero, .zero, .zero]
      [.ofInt 10, .ofInt 10, .ofInt 10] =
        some (.componentOutside 0 (.ofInt 20) .zero (.ofInt 10)) := by decide +kernel
  refine ⟨.plain none, s, e, e.param.name, _, hlife, he, hkind, hp, rfl, rfl, rfl,
    ⟨by decide +kernel, by decide +kernel⟩, ?_⟩
  rw [Editor.interact_setComponent hkind hp, if_pos (by decide), Editor.tryVector,
    if_neg (by decide)]
  simp only [List.set_cons_succ, List.set_cons_zero, hfirst, Editor.refuse]
  rw [hp]
  rfl

end Session

end LiveTuner
