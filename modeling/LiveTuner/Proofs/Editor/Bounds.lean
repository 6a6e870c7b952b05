import LiveTuner.Command
import LiveTuner.Proofs.Param.Sending

/-!
# Numbers and their bounds

An edit is refused if one of its numbers is below the lower or above the upper bound at its index.
That is not the same as being between them: what is no number is neither below nor above anything.
So it passes, is stored and is sent, and it is the only one that does. A user can bring it in by a
component, whose number is read from a word; a value that is read from data never has it.

A number may go out as an integer. That is the number's own value, so it lies between the same
bounds.

## Main definitions

* `Binary64.IsBetween` — a number lies between two others in the numeric order
* `Control.numbers`, `Control.bounds`, `Value.numbers` — the numbers of a control, their bounds, and
  the numbers that a value brings
* `Interaction.numbers` — the numbers that a control would hold after an interaction
* `Editor.Holds` — a control in place of another, with new numbers within the same bounds

## Main results

* `Editor.exists_holds_of_interact` — an edit that is taken stores its numbers, none of them
  outside the bounds
* `Editor.isBetween_of_interact` — they lie between the bounds unless they are no numbers
* `Editor.not_isBetween_sampleAxes` — a typed component that is no number
-/

namespace LiveTuner

variable {x y lo hi : Binary64} {n : Int}

/-! ### Between bounds -/

namespace Binary64

/-- A number lies between two others in the numeric order. What is no number lies between none. -/
def IsBetween (x lo hi : Binary64) : Prop := lo.le x = true ∧ x.le hi = true

/-- A number lies between bounds that are numbers if it is not outside of them. -/
theorem isBetween_iff_not_outside (hx : x.isNaN = false) (hlo : lo.isNaN = false)
    (hhi : hi.isNaN = false) : x.IsBetween lo hi ↔ x.lt lo = false ∧ hi.lt x = false :=
  and_congr (le_iff_not_lt hlo hx) (le_iff_not_lt hx hhi)

/-- What is not outside bounds lies between them, unless it is no number. -/
theorem isBetween_iff_of_not_outside (hlo : lo.isNaN = false) (hhi : hi.isNaN = false)
    (h : x.lt lo = false ∧ hi.lt x = false) : x.IsBetween lo hi ↔ x.isNaN = false := by
  constructor
  · rintro ⟨hle, -⟩
    simp only [le, Bool.and_eq_true, Bool.not_eq_true'] at hle
    exact hle.1.2
  · intro hx
    exact (isBetween_iff_not_outside hx hlo hhi).mpr h

/-- Equal numbers lie between the same bounds. -/
theorem isBetween_congr (h : y.eq x = true) : y.IsBetween lo hi ↔ x.IsBetween lo hi := by
  simp only [eq, Bool.and_eq_true, Bool.not_eq_true', beq_iff_eq] at h
  obtain ⟨⟨hy, hx⟩, hposition⟩ := h
  simp [IsBetween, le, hx, hy, hposition]

/-- Values that are the same integer are equal; for zero their signs may differ. -/
theorem IsInt.eq (h : x.IsInt n) (h' : y.IsInt n) : x.eq y = true := by
  have hrank : x.rank.val = y.rank.val :=
    quanta_strictMono.injective (h.size_eq.trans h'.size_eq.symm)
  have hposition : x.position = y.position := by
    by_cases hzero : n = 0
    · have hsize : quanta x.rank.val = quanta 0 := by
        have hx := h.size_eq
        rw [hzero, Int.natAbs_zero, Nat.zero_mul] at hx
        rw [quanta_of_le (Nat.zero_le _)]
        exact hx
      have hrank₀ := quanta_strictMono.injective hsize
      simp [position, ← hrank, hrank₀]
    · have hsign : x.negative = y.negative := by
        rw [Bool.eq_iff_iff, h.negative_iff hzero, h'.negative_iff hzero]
      simp [position, hrank, hsign]
  simp [Binary64.eq, isNaN_eq_false_of_isFinite h.isFinite,
    isNaN_eq_false_of_isFinite h'.isFinite, hposition]

end Binary64

/-! ### Numbers of controls and values -/

/-- The numbers that a control holds. -/
def Control.numbers : Control → List Binary64
  | .scalar s => [s.val]
  | .vector v => v.val
  | .choice _ | .flag _ | .text _ | .unresolved .. => []

/-- The lower and the upper bound at each index of a control. -/
def Control.bounds : Control → List (Binary64 × Binary64)
  | .scalar s => [(s.min, s.max)]
  | .vector v => v.min.zip v.max
  | .choice _ | .flag _ | .text _ | .unresolved .. => []

/-- The numbers that a value brings. -/
def Value.numbers : Value → List Binary64
  | .int n => [.ofInt n.toInt]
  | .real x => [x]
  | .ints ns => ns.map fun n => .ofInt n.toInt
  | .reals xs => xs
  | .null | .bool _ | .text _ => []

/-- The numbers that a control would hold after an interaction. -/
def Interaction.numbers (c : Control) : Interaction → List Binary64
  | .setValue val => val.numbers
  | .setComponent index x => c.numbers.set index x
  | .pick _ | .toggle => c.numbers

theorem Value.numbers_of_toReal? {val : Value} (h : val.toReal? = some x) : val.numbers = [x] := by
  cases val with
  | int n | real y =>
    obtain rfl := Option.some.inj h
    rfl
  | null | bool | ints | reals | text => cases h

theorem Value.numbers_of_toReals? {val : Value} {xs : List Binary64} (h : val.toReals? = some xs) :
    val.numbers = xs := by
  cases val with
  | ints ns | reals ys =>
    obtain rfl := Option.some.inj h
    rfl
  | null | bool | int | real | text => cases h

/-- A number goes out as it is, or as an integer that is equal to it. -/
def Sent (x y : Binary64) : Prop := y = x ∨ y.eq x = true

theorem sent_wholeInt64 {integral : Bool} (h : sentWhole x integral = true) :
    Sent x (.ofInt (wholeInt64 x).toInt) := by
  obtain ⟨-, n, hn⟩ := sentWhole_iff.mp h
  rw [toInt_wholeInt64 hn]
  exact Or.inr ((Binary64.isInt_ofInt hn.natAbs_le).eq hn.isInt)

/-- The value of a control brings the numbers that the control holds. -/
theorem Control.forall₂_sent_value (c : Control) (h : c.kind = .scalar ∨ c.kind = .vector) :
    List.Forall₂ Sent c.numbers c.value.numbers := by
  cases c with
  | scalar s =>
    rw [value, Scalar.value]
    split
    · next hsent => exact .cons (sent_wholeInt64 hsent) .nil
    · exact .cons (Or.inl rfl) .nil
  | vector v =>
    rw [value, ScalarVector.value]
    split
    · next hsent =>
      rw [Value.numbers, List.map_map, List.forall₂_map_right_iff]
      exact List.forall₂_same.mpr fun x hx => sent_wholeInt64 (List.all_eq_true.mp hsent x hx)
    · exact List.forall₂_same.mpr fun x _ => Or.inl rfl
  | choice | flag | text | unresolved => simp [Control.kind] at h

/-! ### Typed values -/

/-- A value that is read from data brings numbers only. -/
theorem Value.isNaN_of_ofJson? {v : Json} {val : Value} (h : ofJson? v = some val) :
    ∀ x ∈ val.numbers, x.isNaN = false := by
  intro x hx
  cases v with
  | null | bool | string =>
    obtain rfl := Option.some.inj h
    cases hx
  | integer n =>
    rw [ofJson?] at h
    split at h
    · obtain rfl := Option.some.inj h
      exact List.mem_singleton.mp hx ▸ Binary64.isNaN_ofInt _
    · obtain rfl := Option.some.inj h
      exact List.mem_singleton.mp hx ▸ Binary64.isNaN_ofInt _
  | real y =>
    obtain rfl := Option.some.inj h
    exact List.mem_singleton.mp hx ▸ Binary64.isNaN_eq_false_of_isFinite y.property
  | array items =>
    rw [ofJson?] at h
    split at h
    · obtain rfl := Option.some.inj h
      obtain ⟨n, -, rfl⟩ := List.mem_map.mp hx
      exact Binary64.isNaN_ofInt _
    · -- One of the items is no integer, so each was read as a number by itself.
      obtain ⟨xs, hxs, rfl⟩ := Option.map_eq_some_iff.mp h
      obtain ⟨item, -, hitem⟩ := exists_mem_of_mapM_eq_some hxs hx
      exact Json.isNaN_of_toReal? hitem
  | object => cases h

/-- So does a value that a user types. -/
theorem Command.isNaN_of_parse {line : String} {id : ParamId} {val : Value}
    (h : parse line = .ok (.interact id (.setValue val))) :
    ∀ x ∈ val.numbers, x.isNaN = false := by
  rw [parse] at h
  generalize words line.toList = line at h
  unfold ofWords at h
  split at h
  · cases h
  · split at h
    · split at h <;> cases h
    · cases h
    · cases h
    · -- Only this command replaces a value.
      obtain ⟨⟨id, rest⟩, -, h⟩ := exists_of_bind_eq_ok h
      obtain ⟨val', hval, h⟩ := exists_of_bind_eq_ok h
      cases h
      rw [readValue] at hval
      split at hval
      · cases hval
      · split at hval
        · next hof =>
          obtain rfl := Except.ok.inj hval
          exact Value.isNaN_of_ofJson? hof
        · cases hval
    · obtain ⟨⟨id, rest⟩, -, h⟩ := exists_of_bind_eq_ok h
      cases h
    · obtain ⟨⟨id, rest⟩, -, h⟩ := exists_of_bind_eq_ok h
      obtain ⟨⟨index, rest⟩, -, h⟩ := exists_of_bind_eq_ok h
      cases h
    · obtain ⟨⟨id, rest⟩, -, h⟩ := exists_of_bind_eq_ok h
      obtain ⟨⟨index, rest⟩, -, h⟩ := exists_of_bind_eq_ok h
      obtain ⟨x, -, h⟩ := exists_of_bind_eq_ok h
      cases h
    · cases h

/-! ### Edits -/

namespace Editor

variable {e e' : Editor} {c : Control} {interaction : Interaction} {val : Value}

/-- Where there are bounds, each number is checked against them. -/
theorem not_outside_of_firstOutside? {index : Nat} {xs los his : List Binary64}
    (h : firstOutside? index xs los his = none) {i : Nat} (hx : xs[i]? = some x)
    (hb : (los.zip his)[i]? = some (lo, hi)) : x.lt lo = false ∧ hi.lt x = false := by
  induction xs generalizing index los his i with
  | nil => simp at hx
  | cons z rest ih =>
    -- The check ends with the shorter list of bounds, and so does the list of pairs.
    match los, his with
    | [], _ | _ :: _, [] => simp at hb
    | lo' :: los, hi' :: his =>
      rw [firstOutside?] at h
      split_ifs at h with hinside
      cases i with
      | zero =>
        obtain rfl := Option.some.inj hx
        obtain ⟨rfl, rfl⟩ := Prod.mk.inj (Option.some.inj hb)
        simpa using hinside
      | succ i => exact ih h hx hb

theorem tryVector_eq_ok {v : ScalarVector} {xs : List Binary64} {val? : Option Value}
    (h : e.tryVector v xs = .ok (e', val?)) :
    e' = e.storeVector xs ∧ val? = some (ScalarVector.value { v with val := xs }) ∧
      firstOutside? 0 xs v.min v.max = none := by
  rw [tryVector] at h
  split_ifs at h with hlength
  · exact absurd h refuse_ne_ok
  · split at h
    · exact absurd h refuse_ne_ok
    · next hinside =>
      obtain ⟨rfl, rfl⟩ := Prod.mk.inj (Except.ok.inj h)
      exact ⟨rfl, rfl, hinside⟩

/-- The control that an edit leaves behind: it has other numbers, none of which is outside the
bounds. -/
structure Holds (c c' : Control) (xs : List Binary64) : Prop where
  /-- It is a scalar or a vector. -/
  hasNumbers : c'.kind = .scalar ∨ c'.kind = .vector
  /-- It has the same bounds. -/
  bounds_eq : c'.bounds = c.bounds
  /-- It has these numbers. -/
  numbers_eq : c'.numbers = xs
  /-- Where there are bounds, none of them is outside. -/
  not_outside : ∀ (i : Nat) (x lo hi : Binary64), xs[i]? = some x → c.bounds[i]? = some (lo, hi) →
    x.lt lo = false ∧ hi.lt x = false

/-- A scalar takes a number that is not outside its bounds. -/
theorem exists_holds_of_interactScalar (hc : e.param.control? = some c)
    (h : e.interactScalar interaction = .ok (e', some val)) :
    ∃ c', e'.param.control? = some c' ∧ Holds c c' (interaction.numbers c) ∧ val = c'.value := by
  unfold interactScalar at h
  split at h
  · split at h
    · exact absurd h refuse_ne_ok
    · next x hx =>
      rw [hc] at h
      split at h
      · next s hs =>
        obtain rfl := Option.some.inj hs
        split_ifs at h with hinside
        · exact absurd h refuse_ne_ok
        · obtain ⟨rfl, ⟨⟩⟩ := Prod.mk.inj (Except.ok.inj h)
          -- A scalar is checked as a vector with one component is.
          have hchecked : firstOutside? 0 [x] [s.min] [s.max] = none := by
            simp [firstOutside?, hinside]
          rw [param_storeScalar (Param.eq_leaf_of_control? hc), Interaction.numbers,
            Value.numbers_of_toReal? hx]
          exact ⟨_, rfl,
            ⟨Or.inl rfl, rfl, rfl, fun _ _ _ _ => not_outside_of_firstOutside? hchecked⟩, rfl⟩
      · exact absurd h refuse_ne_ok
  · exact absurd h refuse_ne_ok

/-- A vector takes numbers none of which is outside the bounds at its index. -/
theorem exists_holds_of_tryVector {v : ScalarVector} {xs : List Binary64}
    (hv : e.param.control? = some (.vector v)) (h : e.tryVector v xs = .ok (e', some val)) :
    ∃ c', e'.param.control? = some c' ∧ Holds (.vector v) c' xs ∧ val = c'.value := by
  obtain ⟨rfl, ⟨⟩, hchecked⟩ := tryVector_eq_ok h
  rw [param_storeVector (Param.eq_leaf_of_control? hv)]
  exact ⟨_, rfl, ⟨Or.inr rfl, rfl, rfl, fun _ _ _ _ => not_outside_of_firstOutside? hchecked⟩, rfl⟩

theorem exists_holds_of_interactVector (hc : e.param.control? = some c)
    (h : e.interactVector interaction = .ok (e', some val)) :
    ∃ c', e'.param.control? = some c' ∧ Holds c c' (interaction.numbers c) ∧ val = c'.value := by
  unfold interactVector at h
  rw [hc] at h
  split at h
  · next v hv =>
    obtain rfl := Option.some.inj hv
    split at h
    · cases h
    · split_ifs at h
      · exact exists_holds_of_tryVector hc h
      · exact absurd h refuse_ne_ok
    · split at h
      · next xs hxs =>
        rw [Interaction.numbers, Value.numbers_of_toReals? hxs]
        exact exists_holds_of_tryVector hc h
      · exact absurd h refuse_ne_ok
    · exact absurd h refuse_ne_ok
  · exact absurd h refuse_ne_ok

/-- An edit that is taken stores its numbers, none of which is outside the bounds, and tells the
value that the control then has. -/
theorem exists_holds_of_interact (hkind : e.kind = .scalar ∨ e.kind = .vector)
    (hc : e.param.control? = some c) (h : e.interact interaction = .ok (e', some val)) :
    ∃ c', e'.param.control? = some c' ∧ Holds c c' (interaction.numbers c) ∧ val = c'.value := by
  rw [interact] at h
  rcases hkind with hkind | hkind
  · rw [hkind] at h
    exact exists_holds_of_interactScalar hc h
  · rw [hkind] at h
    exact exists_holds_of_interactVector hc h

/-- An editor of numbers, whose bounds are numbers, takes an interaction and tells a value. The
control then holds the numbers of the interaction, and the value brings as many. Each number with
bounds at its index lies between these exactly if it is a number, and so does the one that is sent
for it. A typed value brings nothing that is no number. -/
theorem isBetween_of_interact (hkind : e.kind = .scalar ∨ e.kind = .vector)
    (hc : e.param.control? = some c)
    (hbounds : ∀ lo hi, (lo, hi) ∈ c.bounds → lo.isNaN = false ∧ hi.isNaN = false)
    (h : e.interact interaction = .ok (e', some val)) :
    ∃ c', e'.param.control? = some c' ∧ c'.bounds = c.bounds ∧
      c'.numbers = interaction.numbers c ∧ val.numbers.length = c'.numbers.length ∧
      (∀ (i : Nat) (x lo hi : Binary64), c'.numbers[i]? = some x → c.bounds[i]? = some (lo, hi) →
        (x.IsBetween lo hi ↔ x.isNaN = false) ∧
        ∃ y, val.numbers[i]? = some y ∧ (y.IsBetween lo hi ↔ x.isNaN = false)) ∧
      ∀ line id typed, Command.parse line = .ok (.interact id (.setValue typed)) →
        interaction = .setValue typed → ∀ x ∈ c'.numbers, x.isNaN = false := by
  obtain ⟨c', hc', hholds, rfl⟩ := exists_holds_of_interact hkind hc h
  have hsent := c'.forall₂_sent_value hholds.hasNumbers
  refine ⟨c', hc', hholds.bounds_eq, hholds.numbers_eq, hsent.length_eq.symm, ?between, ?typed⟩
  case between =>
    intro i x lo hi hx hb
    obtain ⟨hlo, hhi⟩ := hbounds lo hi (List.mem_of_getElem? hb)
    have hbetween := Binary64.isBetween_iff_of_not_outside hlo hhi
      (hholds.not_outside i x lo hi (hholds.numbers_eq ▸ hx) hb)
    obtain ⟨hi₁, rfl⟩ := List.getElem?_eq_some_iff.mp hx
    have hi₂ : i < c'.value.numbers.length := hsent.length_eq ▸ hi₁
    refine ⟨hbetween, c'.value.numbers[i], List.getElem?_eq_getElem hi₂, ?_⟩
    -- What is sent is the number itself or equal to it, so it lies between the same bounds.
    rcases hsent.get hi₁ hi₂ with heq | heq
    · rw [← hbetween]
      exact iff_of_eq (congrArg (Binary64.IsBetween · lo hi) heq)
    · rw [← hbetween]
      exact Binary64.isBetween_congr heq
  case typed =>
    rintro line id typed hparse rfl
    rw [hholds.numbers_eq]
    exact Command.isNaN_of_parse hparse

/-- Three numbers between zero and ten. -/
def sampleAxesVector : ScalarVector :=
  ⟨[.ofInt 1, .ofInt 2, .ofInt 3], [.zero, .zero, .zero], [.ofInt 10, .ofInt 10, .ofInt 10], false,
    none, true⟩

/-- Their editor. -/
def sampleAxes : Editor :=
  (create (.leaf ⟨3⟩ "axes" (.vector sampleAxesVector)) true 1).rebuild

/-- What an edit of this editor comes to can be read off its fields. -/
theorem exists_interact_sampleAxes (interaction : Interaction) (val : Value) (xs : List Binary64)
    (h : ((sampleAxes.interact interaction).toOption.map fun (e, val?) =>
      (val?, e.param.control?.map fun c => (c.numbers, c.bounds))) =
        some (some val, some (xs, List.replicate 3 (.zero, .ofInt 10)))) :
    ∃ e' c', sampleAxes.interact interaction = .ok (e', some val) ∧
      e'.param.control? = some c' ∧ c'.numbers = xs ∧
      c'.bounds = List.replicate 3 (.zero, .ofInt 10) := by
  cases hedit : sampleAxes.interact interaction with
  | error problem => simp [hedit, Except.toOption] at h
  | ok result =>
    obtain ⟨e', val?⟩ := result
    rw [hedit] at h
    obtain ⟨rfl, hcontrol⟩ := Prod.mk.inj (Option.some.inj h)
    obtain ⟨c', hc', hfields⟩ := Option.map_eq_some_iff.mp hcontrol
    obtain ⟨hnumbers, hbounds⟩ := Prod.mk.inj hfields
    exact ⟨e', c', rfl, hc', hnumbers, hbounds⟩

/-- A typed component at the upper bound lies between the bounds, and so do the others. -/
theorem isBetween_sampleAxes :
    ∃ interaction e' c', Command.parse "component #3 1 1e1" = .ok (.interact ⟨3⟩ interaction) ∧
      sampleAxes.interact interaction = .ok (e', some (.ints [1, 10, 3])) ∧
      e'.param.control? = some c' ∧ c'.numbers = [.ofInt 1, .ofInt 10, .ofInt 3] ∧
      ∀ (i : Nat) (x : Binary64), c'.numbers[i]? = some x → i < 3 →
        x.IsBetween .zero (.ofInt 10) := by
  have hparse : Command.parse "component #3 1 1e1" =
      .ok (.interact ⟨3⟩ (.setComponent 1 (.ofInt 10))) := by decide +kernel
  obtain ⟨e', -, hedit, -⟩ := exists_interact_sampleAxes (.setComponent 1 (.ofInt 10))
    (.ints [1, 10, 3]) [.ofInt 1, .ofInt 10, .ofInt 3] (by decide +kernel)
  have hsame : (Control.vector sampleAxesVector).bounds = List.replicate 3 (.zero, .ofInt 10) := rfl
  obtain ⟨c', hc', -, hnumbers, -, hbetween, -⟩ :=
    isBetween_of_interact (c := .vector sampleAxesVector) (Or.inr rfl) rfl (fun lo hi hb => by
      obtain ⟨rfl, rfl⟩ := Prod.mk.inj (List.eq_of_mem_replicate (hsame ▸ hb))
      exact ⟨rfl, Binary64.isNaN_ofInt 10⟩) hedit
  have hnumbers' : c'.numbers = [.ofInt 1, .ofInt 10, .ofInt 3] := hnumbers
  refine ⟨_, e', c', hparse, hedit, hc', hnumbers', fun i x hx hi => ?_⟩
  have hx' : x.isNaN = false := by
    have hmem := List.mem_of_getElem? hx
    simp only [hnumbers', List.mem_cons, List.not_mem_nil, or_false] at hmem
    rcases hmem with rfl | rfl | rfl <;> exact Binary64.isNaN_ofInt _
  have hb : (Control.vector sampleAxesVector).bounds[i]? = some (.zero, .ofInt 10) :=
    hsame ▸ List.getElem?_replicate_of_lt hi
  exact (hbetween i x _ _ hx hb).1.mpr hx'

/-- A typed component that is no number is taken, stored and sent, and lies between no bounds. -/
theorem not_isBetween_sampleAxes :
    ∃ interaction e' c', Command.parse "component #3 1 nan" = .ok (.interact ⟨3⟩ interaction) ∧
      sampleAxes.interact interaction =
        .ok (e', some (.reals [.ofInt 1, .nan false, .ofInt 3])) ∧
      e'.param.control? = some c' ∧ c'.numbers[1]? = some (.nan false) ∧
      c'.bounds[1]? = some (.zero, .ofInt 10) ∧
      ¬ (Binary64.nan false).IsBetween .zero (.ofInt 10) := by
  have hparse : Command.parse "component #3 1 nan" =
      .ok (.interact ⟨3⟩ (.setComponent 1 (.nan false))) := by decide +kernel
  obtain ⟨e', c', hedit, hc', hnumbers, hbounds⟩ :=
    exists_interact_sampleAxes (.setComponent 1 (.nan false))
      (.reals [.ofInt 1, .nan false, .ofInt 3]) [.ofInt 1, .nan false, .ofInt 3] (by decide +kernel)
  refine ⟨_, e', c', hparse, hedit, hc', by rw [hnumbers]; rfl, by rw [hbounds]; rfl, ?_⟩
  rintro ⟨hle, -⟩
  exact absurd hle (by decide)

end Editor

end LiveTuner
