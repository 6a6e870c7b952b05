import LiveTuner.Proofs.Binary64
import LiveTuner.Proofs.Editor.Edit

/-!
# Values that travel

An edited value goes to the registry in the form in which it goes to the node. That form forgets the
sign of a zero, and that a whole number was not an integer by itself. Whoever stores it nevertheless
has a value that travels in the same form, as long as the settings are the same.

## Main definitions

* `Control.settings`, `Param.settings?` — everything but the value
* `Param.Agrees` — alike in everything, with the value as it travels

## Main results

* `Scalar.exists_toReal?_value`, `ScalarVector.exists_toReals?_value` — a stored value travels in
  the form in which it came
* `Param.Agrees.setValue?`, `Param.Agrees.revalued` — agreement is kept by pushed values and edits
-/

namespace LiveTuner

variable {x : Binary64} {integral : Bool} {val : Value}

/-! ### Numbers -/

theorem sentWhole_eq_true_iff :
    sentWhole x integral = true ↔
      integral = true ∧ x.isWhole = true ∧ x.size ≤ maxExactWhole * Binary64.quantaPerOne := by
  simp [sentWhole, and_assoc]

/-- A number is sent as an integer if the node has sent one, and it is one of at most 2^53. -/
theorem sentWhole_iff :
    sentWhole x integral = true ↔ integral = true ∧ ∃ n, x.IsExactInt n := by
  rw [sentWhole_eq_true_iff, Binary64.isWhole_iff_isInt_toInt]
  constructor
  · rintro ⟨hintegral, hint, hsize⟩
    exact ⟨hintegral, x.toInt, hint, Binary64.natAbs_toInt_le hsize⟩
  · rintro ⟨hintegral, n, hint, hle⟩
    refine ⟨hintegral, ?_, ?_⟩
    · rwa [hint.toInt_eq]
    · rw [hint.size_eq]
      exact Nat.mul_le_mul_right _ hle

theorem toInt_wholeInt64 {n : Int} (h : x.IsExactInt n) : (wholeInt64 x).toInt = n := by
  have hle := h.natAbs_le
  have hmax : maxExactWhole = 2 ^ 53 := by decide
  rw [wholeInt64, h.isInt.toInt_eq]
  exact Int64.toInt_ofInt_of_le (by omega) (by omega)

/-- A whole number that is sent as an integer comes back as a value that is sent as the same
integer. -/
theorem sentWhole_ofInt (h : sentWhole x integral = true) :
    sentWhole (.ofInt (wholeInt64 x).toInt) integral = true ∧
      wholeInt64 (.ofInt (wholeInt64 x).toInt) = wholeInt64 x := by
  obtain ⟨hintegral, n, hn⟩ := sentWhole_iff.mp h
  have hback : (Binary64.ofInt n).IsExactInt n := ⟨Binary64.isInt_ofInt hn.natAbs_le, hn.natAbs_le⟩
  rw [toInt_wholeInt64 hn]
  refine ⟨sentWhole_iff.mpr ⟨hintegral, n, hback⟩, Int64.toInt_inj.mp ?_⟩
  rw [toInt_wholeInt64 hback, toInt_wholeInt64 hn]

/-- A scalar that takes the value of another one travels as that one. -/
theorem Scalar.exists_toReal?_value (s : Scalar) :
    ∃ x, s.value.toReal? = some x ∧ ∀ s' : Scalar, s'.integral = s.integral →
      Scalar.value { s' with val := x } = s.value := by
  rw [value]
  cases hsent : sentWhole s.val s.integral with
  | true =>
    obtain ⟨hsent', hwhole⟩ := sentWhole_ofInt hsent
    refine ⟨_, rfl, fun s' hs' => ?_⟩
    simp only [value, hs', hsent', hwhole, if_true]
  | false =>
    refine ⟨_, rfl, fun s' hs' => ?_⟩
    simp [value, hs', hsent]

/-- A vector that takes the value of another one travels as that one. -/
theorem ScalarVector.exists_toReals?_value (v : ScalarVector) :
    ∃ xs, v.value.toReals? = some xs ∧ xs.length = v.val.length ∧
      ∀ v' : ScalarVector, v'.integral = v.integral →
        ScalarVector.value { v' with val := xs } = v.value := by
  rw [value]
  cases hsent : v.val.all (sentWhole · v.integral) with
  | true =>
    -- Each number of the list comes back as one that travels as the same integer.
    have hback : ∀ x ∈ v.val, sentWhole (.ofInt (wholeInt64 x).toInt) v.integral = true ∧
        wholeInt64 (.ofInt (wholeInt64 x).toInt) = wholeInt64 x := fun x hx =>
      sentWhole_ofInt (List.all_eq_true.mp hsent x hx)
    refine ⟨_, rfl, by simp, fun v' hv' => ?_⟩
    have hall : ((v.val.map wholeInt64).map fun n => Binary64.ofInt n.toInt).all
        (sentWhole · v.integral) = true := by
      simp only [List.all_map, List.all_eq_true]
      exact fun x hx => (hback x hx).1
    have hmap : ((v.val.map wholeInt64).map fun n => Binary64.ofInt n.toInt).map wholeInt64 =
        v.val.map wholeInt64 := by
      rw [List.map_map, List.map_map]
      exact List.map_congr_left fun x hx => (hback x hx).2
    simp only [value, hv', hall, hmap, if_true]
  | false =>
    refine ⟨_, rfl, rfl, fun v' hv' => ?_⟩
    simp [value, hv', hsent]

/-- Vectors that travel alike are equally long. -/
theorem ScalarVector.length_eq_of_value_eq {v v' : ScalarVector} (h : v.value = v'.value) :
    v.val.length = v'.val.length := by
  obtain ⟨xs, hxs, hlength, -⟩ := v.exists_toReals?_value
  obtain ⟨xs', hxs', hlength', -⟩ := v'.exists_toReals?_value
  rw [h, hxs'] at hxs
  rw [← hlength, ← hlength', Option.some.inj hxs]

/-! ### Settings -/

namespace Control

/-- Everything of a control but its value. -/
inductive Settings where
  /-- The values to choose from. -/
  | choice (options : List Value)
  /-- The bounds, the scale and the type of a number. -/
  | scalar (min max : Binary64) (logScale : Bool) (step : Option Binary64) (integral : Bool)
  /-- The bounds, the scale and the type of a sequence of numbers. -/
  | vector (min max : List Binary64) (logScale : Bool) (step : Option Binary64) (integral : Bool)
  /-- A flag has none. -/
  | flag
  /-- A text has none. -/
  | text
  /-- What stands in place of a control. -/
  | unresolved (cause : Unresolvable) (definition : Definition)

/-- The control without its value. -/
def settings : Control → Settings
  | choice c => .choice c.options
  | scalar s => .scalar s.min s.max s.logScale s.step s.integral
  | vector v => .vector v.min v.max v.logScale v.step v.integral
  | flag _ => .flag
  | text _ => .text
  | unresolved cause definition => .unresolved cause definition

variable {c c' d : Control}

theorem Revalued.settings_eq (h : c.Revalued d) : c.settings = d.settings := by
  cases c with
  | choice c₀ =>
    cases d with
    | choice c₁ =>
      rw [Revalued] at h
      rw [h]
      rfl
    | scalar | vector | flag | text | unresolved => exact h.elim
  | scalar s₀ =>
    cases d with
    | scalar s₁ =>
      rw [Revalued] at h
      rw [h]
      rfl
    | choice | vector | flag | text | unresolved => exact h.elim
  | vector v₀ =>
    cases d with
    | vector v₁ =>
      obtain ⟨h, -⟩ := h
      rw [h]
      rfl
    | choice | scalar | flag | text | unresolved => exact h.elim
  | flag b => cases d <;> first | rfl | exact h.elim
  | text s => cases d <;> first | rfl | exact h.elim
  | unresolved cause definition => exact h.elim

theorem kind_eq_of_settings_eq (h : c.settings = c'.settings) : c.kind = c'.kind := by
  cases c <;> cases c' <;> first | rfl | exact absurd h (by simp [settings])

/-- Controls of the same settings and of values that travel alike take the same values. -/
theorem setValue?_of_settings_eq (h : c.settings = c'.settings) (hvalue : c.value = c'.value)
    (hset : c'.setValue? val = some d) :
    ∃ d', c.setValue? val = some d' ∧ d'.settings = d.settings ∧ d'.value = d.value := by
  cases c' with
  | choice c₁ =>
    cases c with
    | choice c₀ =>
      obtain rfl := Option.some.inj hset
      exact ⟨_, rfl, h, rfl⟩
    | scalar | vector | flag | text | unresolved => cases h
  | scalar s₁ =>
    cases c with
    | scalar s₀ =>
      -- Both store the same number, and travel alike as they have the same type.
      obtain ⟨x, hx, rfl⟩ := Option.map_eq_some_iff.mp hset
      obtain ⟨-, -, -, -, hintegral⟩ := Settings.scalar.inj h
      refine ⟨.scalar { s₀ with val := x }, ?_, h, ?_⟩
      · rw [setValue?, hx]
        rfl
      · simp only [value, Scalar.value, hintegral]
    | choice | vector | flag | text | unresolved => cases h
  | vector v₁ =>
    cases c with
    | vector v₀ =>
      have hlength : v₀.val.length = v₁.val.length :=
        ScalarVector.length_eq_of_value_eq (show v₀.value = v₁.value from hvalue)
      obtain ⟨-, -, -, -, hintegral⟩ := Settings.vector.inj h
      rw [setValue?] at hset
      split at hset
      · next xs hxs =>
        split_ifs at hset with hfits
        obtain rfl := Option.some.inj hset
        refine ⟨.vector { v₀ with val := xs }, ?_, h, ?_⟩
        · simp only [setValue?, hxs, hfits, hlength, if_true]
        · simp only [value, ScalarVector.value, hintegral]
      · cases hset
    | choice | scalar | flag | text | unresolved => cases h
  | flag b₁ =>
    cases c with
    | flag b₀ => exact ⟨d, hset, rfl, rfl⟩
    | choice | scalar | vector | text | unresolved => cases h
  | text s₁ =>
    cases c with
    | text s₀ => exact ⟨d, hset, rfl, rfl⟩
    | choice | scalar | vector | flag | unresolved => cases h
  | unresolved cause definition => exact absurd hset (by simp [setValue?])

/-- A control takes the value that it has come to have, in the form in which that travels. -/
theorem Revalued.setValue? (h : c.Revalued d) :
    ∃ d', c.setValue? d.value = some d' ∧ d'.settings = d.settings ∧ d'.value = d.value := by
  have hsettings := h.settings_eq
  cases d with
  | choice c₁ =>
    cases c with
    | choice c₀ => exact ⟨_, rfl, hsettings, rfl⟩
    | scalar | vector | flag | text | unresolved => exact h.elim
  | scalar s₁ =>
    cases c with
    | scalar s₀ =>
      obtain ⟨x, hx, hvalue⟩ := s₁.exists_toReal?_value
      obtain ⟨-, -, -, -, hintegral⟩ := Settings.scalar.inj hsettings
      refine ⟨.scalar { s₀ with val := x }, ?_, hsettings, hvalue s₀ hintegral⟩
      rw [Control.setValue?, value, hx]
      rfl
    | choice | vector | flag | text | unresolved => exact h.elim
  | vector v₁ =>
    cases c with
    | vector v₀ =>
      obtain ⟨xs, hxs, hlength, hvalue⟩ := v₁.exists_toReals?_value
      obtain ⟨-, -, -, -, hintegral⟩ := Settings.vector.inj hsettings
      refine ⟨.vector { v₀ with val := xs }, ?_, hsettings, hvalue v₀ hintegral⟩
      simp only [Control.setValue?, value, hxs, hlength.trans h.2, if_true]
    | choice | scalar | flag | text | unresolved => exact h.elim
  | flag b₁ =>
    cases c with
    | flag b₀ => exact ⟨_, rfl, rfl, rfl⟩
    | choice | scalar | vector | text | unresolved => exact h.elim
  | text s₁ =>
    cases c with
    | text s₀ => exact ⟨_, rfl, rfl, rfl⟩
    | choice | scalar | vector | flag | unresolved => exact h.elim
  | unresolved cause definition => cases c <;> exact h.elim

/-- A control takes the value that it has just taken, and stays as it is. -/
theorem setValue?_of_setValue?_eq_some (h : c.setValue? val = some d) :
    d.setValue? val = some d := by
  cases c with
  | choice =>
    obtain rfl := Option.some.inj h
    rfl
  | scalar =>
    obtain ⟨x, hx, rfl⟩ := Option.map_eq_some_iff.mp h
    simp [setValue?, hx]
  | vector =>
    rw [setValue?] at h
    split at h
    · next xs hxs =>
      split_ifs at h
      obtain rfl := Option.some.inj h
      simp [setValue?, hxs]
    · cases h
  | flag =>
    cases val with
    | bool b =>
      obtain rfl := Option.some.inj h
      rfl
    | null | int | real | text | ints | reals => cases h
  | text =>
    cases val with
    | text s =>
      obtain rfl := Option.some.inj h
      rfl
    | null | bool | int | real | ints | reals => cases h
  | unresolved => cases h

end Control

/-! ### Agreement -/

namespace Param

/-- Everything of a parameter's control but its value; none for a group. -/
def settings? : Param → Option Control.Settings
  | leaf _ _ control => some control.settings
  | group .. => none

/-- The parameters are no groups and have the same id, name and settings, and values that travel
alike. -/
inductive Agrees : Param → Param → Prop where
  /-- The controls decide. -/
  | leaf (id : ParamId) (name : String) {c c' : Control} (settings_eq : c.settings = c'.settings)
    (value_eq : c.value = c'.value) : Agrees (.leaf id name c) (.leaf id name c')

variable {c d : Control} {p p' q : Param}

theorem agrees_refl (id : ParamId) (name : String) (c : Control) :
    Agrees (.leaf id name c) (.leaf id name c) := .leaf id name rfl rfl

theorem Agrees.fields_eq (h : p.Agrees q) :
    p.name = q.name ∧ p.kind = q.kind ∧ p.settings? = q.settings? ∧ p.value = q.value := by
  obtain ⟨id, name, hsettings, hvalue⟩ := h
  exact ⟨rfl, Control.kind_eq_of_settings_eq hsettings, congrArg some hsettings, hvalue⟩

/-- A parameter takes the value that it has just taken, and stays as it is. -/
theorem setValue?_of_setValue?_eq_some (h : p.setValue? val = some q) :
    q.setValue? val = some q := by
  cases p with
  | group => cases h
  | leaf i name c =>
    obtain ⟨d, hd, rfl⟩ := Option.map_eq_some_iff.mp h
    rw [Param.setValue?, Control.setValue?_of_setValue?_eq_some hd]
    rfl

/-- Parameters that agree take the same values, and agree again. -/
theorem Agrees.setValue? (h : q.Agrees p) (hset : p.setValue? val = some p') :
    ∃ q', q.setValue? val = some q' ∧ q'.Agrees p' := by
  obtain ⟨id, name, hsettings, hvalue⟩ := h
  obtain ⟨d, hd, rfl⟩ := Option.map_eq_some_iff.mp hset
  obtain ⟨d', hd', hsettings', hvalue'⟩ := Control.setValue?_of_settings_eq hsettings hvalue hd
  exact ⟨.leaf id name d', by rw [Param.setValue?, hd']; rfl, .leaf id name hsettings' hvalue'⟩

/-- A parameter that agrees with another one takes the value which that one has come to have, and
agrees again. -/
theorem Agrees.revalued {id : ParamId} {name : String} (h : q.Agrees (.leaf id name c))
    (hd : c.Revalued d) :
    ∃ q', q.setValue? d.value = some q' ∧ q'.Agrees (.leaf id name d) := by
  obtain ⟨d₁, hset, hsettings, hvalue⟩ := hd.setValue?
  -- What the edit came to travels as what the edited parameter itself would store.
  have htaken : (Param.leaf id name c).setValue? d.value = some (.leaf id name d₁) := by
    rw [Param.setValue?, hset]
    rfl
  obtain ⟨q', hset', hq'⟩ := h.setValue? htaken
  cases hq' with
  | leaf _ _ hsettings' hvalue' =>
    exact ⟨_, hset', .leaf id name (hsettings'.trans hsettings) (hvalue'.trans hvalue)⟩

end Param

end LiveTuner
