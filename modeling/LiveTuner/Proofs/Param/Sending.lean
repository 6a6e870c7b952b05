import LiveTuner.Proofs.Editor.Edit
import LiveTuner.Proofs.Param.Resolution
import LiveTuner.Proofs.Param.Value

/-!
# The type in which a value is sent

A node takes a value back in the type in which it has sent one: a text for a text, and an integer
for an integer. The type of a number is not in the number, which is a double-precision value either
way. A mark beside it says whether the node has sent an integer. Even so, a number that is no
integer, or that stands for several, is sent as it is.

The mark is made when a definition is resolved, and no value that the control takes later on changes
it. So the type of a control's value can be read off the definition that the control came from.

## Main definitions

* `Definition.Bears` — a control came from a definition, whatever its value is by now
* `Definition.Sends` — by the fields of a definition, the form in which a value goes to the node

## Main results

* `Value.same_self_of_ofJson?` — a value that comes from a node is the same as itself
* `Definition.Bears.sends_iff` — the value of a control, and no other one, has the form that its
  definition asks for
-/

namespace LiveTuner

variable {x : Binary64} {v : Json} {w : Value}

/-! ### Values from a node -/

namespace Binary64

theorem eq_self (h : x.isNaN = false) : x.eq x = true := by
  simp [eq, h]

/-- Rounding an integer gives a number, if need be an infinity. -/
theorem isNaN_ofInt (n : Int) : (ofInt n).isNaN = false := by
  rw [isNaN, decide_eq_false_iff_not, Nat.not_lt]
  exact Nat.min_le_right _ _

end Binary64

theorem Json.isNaN_of_toReal? (h : v.toReal? = some x) : x.isNaN = false := by
  cases v with
  | integer n =>
    obtain rfl := Option.some.inj h
    exact Binary64.isNaN_ofInt n.val
  | real y =>
    obtain rfl := Option.some.inj h
    exact Binary64.isNaN_eq_false_of_isFinite y.property
  | null | bool | string | array | object => cases h

namespace Value

theorem sameReals_self {xs : List Binary64} (h : ∀ x ∈ xs, x.isNaN = false) :
    sameReals xs xs = true := by
  induction xs with
  | nil => rfl
  | cons x rest ih =>
    obtain ⟨hx, hrest⟩ := List.forall_mem_cons.mp h
    rw [sameReals, Binary64.eq_self hx, ih hrest]
    rfl

/-- What is no number differs from itself, but does not come from a node. -/
theorem same_self_of_ofJson? (h : ofJson? v = some w) : w.same w = true := by
  cases v with
  | null | bool | string =>
    obtain rfl := Option.some.inj h
    simp [same]
  | integer n =>
    rw [ofJson?] at h
    split at h
    · obtain rfl := Option.some.inj h
      simp [same]
    · obtain rfl := Option.some.inj h
      exact Binary64.eq_self (Binary64.isNaN_ofInt n.val)
  | real x =>
    obtain rfl := Option.some.inj h
    exact Binary64.eq_self (Binary64.isNaN_eq_false_of_isFinite x.property)
  | array items =>
    rw [ofJson?] at h
    split at h
    · obtain rfl := Option.some.inj h
      simp [same]
    · obtain ⟨xs, hxs, rfl⟩ := Option.map_eq_some_iff.mp h
      refine sameReals_self fun x hx => ?_
      obtain ⟨item, -, hitem⟩ := exists_mem_of_mapM_eq_some hxs hx
      exact Json.isNaN_of_toReal? hitem
  | object => cases h

end Value

/-! ### What resolution notes -/

namespace Control.Revalued

variable {c c₁ c₂ : Control}

theorem refl (h : c.kind ≠ .unresolved) : c.Revalued c := by
  cases c with
  | choice | scalar => rfl
  | vector => exact ⟨rfl, rfl⟩
  | flag | text => trivial
  | unresolved => exact absurd rfl h

/-- What is unresolved takes no value. -/
theorem kind_ne_unresolved (h : c.Revalued c₁) : c.kind ≠ .unresolved := by
  cases c with
  | choice | scalar | vector | flag | text => exact Kind.noConfusion
  | unresolved => exact h.elim

/-- What one value leaves as it was, the next one does, too. -/
theorem trans (h : c.Revalued c₁) (h' : c₁.Revalued c₂) : c.Revalued c₂ := by
  cases c <;> cases c₁ <;> first | exact h.elim | skip
  all_goals cases c₂ <;> first | exact h'.elim | skip
  case choice.choice.choice =>
    rw [Revalued] at h h' ⊢
    rw [h', h]
  case scalar.scalar.scalar =>
    rw [Revalued] at h h' ⊢
    rw [h', h]
  case vector.vector.vector =>
    obtain ⟨h, hlength⟩ := h
    obtain ⟨h', hlength'⟩ := h'
    exact ⟨by rw [h', h], hlength'.trans hlength⟩
  case flag.flag.flag => trivial
  case text.text.text => trivial

end Control.Revalued

namespace Definition

variable {d : Definition} {c c' : Control} {s : Scalar} {v : ScalarVector}

/-- A number counts as an integer if it was sent as one, and so does a truth value. -/
theorem integral_of_scalarValue {v : Json} {integral : Bool}
    (h : scalarValue v = .ok (x, integral)) :
    integral = true ↔ v.isInteger = true ∨ ∃ b, v = .bool b := by
  cases v with
  | bool | integer | real =>
    cases h
    simp [Json.isInteger]
  | null | string | array | object => cases h

/-- A scalar has the number that the node has sent, and its type. -/
theorem scalarValue_of_control (h : d.control = .ok (.scalar s)) :
    scalarValue d.val = .ok (s.val, s.integral) := by
  rw [control.eq_def] at h
  split at h
  · cases kind_of_choice h
  · split at h
    · cases kind_of_vector h
    · obtain ⟨_, ⟨⟩, hval⟩ := scalar_eq_ok h
      exact hval
  · split at h <;> cases h

/-- A vector has the numbers that the node has sent, and their type. -/
theorem items_of_control (h : d.control = .ok (.vector v)) :
    ∃ items, d.val = .array items ∧
      List.Forall₂ (fun item x => item.toReal? = some x) items v.val ∧
      v.integral = items.all Json.isInteger := by
  rw [control.eq_def] at h
  split at h
  · cases kind_of_choice h
  · split at h
    · next items hval =>
      obtain ⟨_, ⟨⟩, hitems, hintegral⟩ := vector_eq_ok h
      exact ⟨items, hval, hitems, hintegral⟩
    · cases kind_of_scalar h
  · split at h <;> cases h

/-- Every option of a choice is one that the node has sent. -/
theorem options_of_control {ch : Choice} (h : d.control = .ok (.choice ch)) :
    ∃ options, d.oneof = some options ∧
      ∀ w ∈ ch.options, ∃ option ∈ options, Value.ofJson? option = some w := by
  rw [control.eq_def] at h
  split at h
  · next options honeof =>
    obtain ⟨_, ⟨⟩, hoptions⟩ := choice_eq_ok h
    refine ⟨options, honeof, fun w hw => ?_⟩
    obtain ⟨i, hi, rfl⟩ := List.getElem_of_mem hw
    have hi' : i < options.length := hoptions.length_eq ▸ hi
    exact ⟨options[i], List.getElem_mem hi', hoptions.get hi' hi⟩
  · split at h
    · cases kind_of_vector h
    · cases kind_of_scalar h
  · split at h <;> cases h

/-! ### The form of a value -/

/-- The control came from the definition; only the value may be another one. -/
def Bears (d : Definition) (c : Control) : Prop :=
  d.params = none ∧ ∃ c₀, d.control = .ok c₀ ∧ c₀.Revalued c

theorem bears_of_control (hparams : d.params = none) (h : d.control = .ok c) : d.Bears c := by
  have hdescribes := (describes_iff_of_params_eq_none hparams).mpr ⟨c, h, rfl⟩
  exact ⟨hparams, c, h, .refl hdescribes.kind_ne_unresolved⟩

/-- Whatever values a control takes, it goes on to be of the definition that it came from. -/
theorem Bears.revalued (h : d.Bears c) (hc : c.Revalued c') : d.Bears c' := by
  obtain ⟨hparams, c₀, hcontrol, hc₀⟩ := h
  exact ⟨hparams, c₀, hcontrol, hc₀.trans hc⟩

theorem Bears.describes (h : d.Bears c) : d.Describes c.kind := by
  obtain ⟨hparams, c₀, hcontrol, hc₀⟩ := h
  exact (describes_iff_of_params_eq_none hparams).mpr ⟨c₀, hcontrol, hc₀.kind_eq.symm⟩

/-- What resolution has noted of a scalar stays. -/
theorem Bears.integral_iff (h : d.Bears (.scalar s)) :
    s.integral = true ↔ d.val.isInteger = true ∨ ∃ b, d.val = .bool b := by
  obtain ⟨-, c₀, hcontrol, hs⟩ := h
  cases c₀ with
  | scalar s₀ =>
    obtain ⟨-, -, -, -, hintegral⟩ := Control.Settings.scalar.inj hs.settings_eq
    rw [← hintegral]
    exact integral_of_scalarValue (scalarValue_of_control hcontrol)
  | choice | vector | flag | text | unresolved => exact hs.elim

theorem Bears.exists_items (h : d.Bears (.vector v)) :
    ∃ items, d.val = .array items ∧ v.val.length = items.length ∧
      (v.integral = true ↔ ∀ item ∈ items, item.isInteger = true) := by
  obtain ⟨-, c₀, hcontrol, hv⟩ := h
  cases c₀ with
  | vector v₀ =>
    obtain ⟨hv, hlength⟩ := hv
    obtain ⟨items, hval, hitems, hintegral⟩ := items_of_control hcontrol
    refine ⟨items, hval, hlength.trans hitems.length_eq.symm, ?_⟩
    rw [hv, ← List.all_eq_true, ← hintegral]
  | choice | scalar | flag | text | unresolved => exact hv.elim

theorem Bears.exists_options {ch : Choice} (h : d.Bears (.choice ch)) :
    ∃ options, d.oneof = some options ∧
      ∀ w ∈ ch.options, ∃ option ∈ options, Value.ofJson? option = some w := by
  obtain ⟨-, c₀, hcontrol, hch⟩ := h
  cases c₀ with
  | choice ch₀ =>
    rw [← Control.Settings.choice.inj hch.settings_eq]
    exact options_of_control hcontrol
  | scalar | vector | flag | text | unresolved => exact hch.elim

/-- By the fields of the definition, the form in which the value of a control goes to the node. -/
inductive Sends (d : Definition) : Control → Value → Prop where
  /-- The value of a choice is equal to one of the options. -/
  | choice {c : Choice} {options : List Json} {option : Json} {w : Value}
    (hd : d.Describes .choice) (honeof : d.oneof = some options) (hoption : option ∈ options)
    (hw : Value.ofJson? option = some w) (hsame : w.same c.val = true) :
    d.Sends (.choice c) c.val
  /-- The node has sent an integer, or a truth value, and the number is an integer of at most
  2^53. -/
  | int {s : Scalar} {n : Int64} (hd : d.Describes .scalar)
    (hsent : d.val.isInteger = true ∨ ∃ b, d.val = .bool b) (hn : s.val.IsExactInt n.toInt) :
    d.Sends (.scalar s) (.int n)
  /-- The node has sent neither, or the number is no such integer. -/
  | real {s : Scalar} (hd : d.Describes .scalar)
    (hnot : (d.val.isInteger = true ∨ ∃ b, d.val = .bool b) → ∀ n, ¬ s.val.IsExactInt n) :
    d.Sends (.scalar s) (.real s.val)
  /-- The node has sent as many integers, if any, and all numbers are integers of at most 2^53. -/
  | ints {v : ScalarVector} {items : List Json} {ns : List Int64} (hd : d.Describes .vector)
    (hval : d.val = .array items) (hlength : ns.length = items.length)
    (hsent : ∀ item ∈ items, item.isInteger = true)
    (hns : List.Forall₂ (fun x n => x.IsExactInt n.toInt) v.val ns) : d.Sends (.vector v) (.ints ns)
  /-- The node has sent as many numbers, one of them no integer, or there is one by now that is no
  such integer. -/
  | reals {v : ScalarVector} {items : List Json} (hd : d.Describes .vector)
    (hval : d.val = .array items) (hlength : v.val.length = items.length)
    (hnot : (∀ item ∈ items, item.isInteger = true) → ∃ x ∈ v.val, ∀ n, ¬ x.IsExactInt n) :
    d.Sends (.vector v) (.reals v.val)
  /-- A truth value. -/
  | flag {b : Bool} (hd : d.Describes .flag) : d.Sends (.flag b) (.bool b)
  /-- A text. -/
  | text {s : String} (hd : d.Describes .text) : d.Sends (.text s) (.text s)

/-- Numbers that are integers of at most 2^53 are sent as these integers. -/
theorem sentWhole_of_forall₂ {xs : List Binary64} {ns : List Int64}
    (h : List.Forall₂ (fun x n => x.IsExactInt n.toInt) xs ns) :
    xs.all (sentWhole · true) = true ∧ xs.map wholeInt64 = ns := by
  induction h with
  | nil => exact ⟨rfl, rfl⟩
  | @cons x n xs ns hx _ ih =>
    have hwhole : wholeInt64 x = n := Int64.toInt_inj.mp (toInt_wholeInt64 hx)
    rw [List.all_cons, sentWhole_iff.mpr ⟨rfl, _, hx⟩, List.map_cons, hwhole, ih.1, ih.2]
    exact ⟨rfl, rfl⟩

theorem Bears.sends_scalar (h : d.Bears (.scalar s)) : d.Sends (.scalar s) s.value := by
  rw [Scalar.value]
  split
  · next hsent =>
    obtain ⟨hintegral, n, hn⟩ := sentWhole_iff.mp hsent
    refine .int h.describes (h.integral_iff.mp hintegral) ?_
    rwa [toInt_wholeInt64 hn]
  · next hsent =>
    refine .real h.describes fun hval n hn => hsent ?_
    exact sentWhole_iff.mpr ⟨h.integral_iff.mpr hval, n, hn⟩

/-- If a vector is sent as integers, the node has sent integers. An empty one is sent so: then the
node has sent nothing that is no integer. -/
theorem Bears.isInteger_of_sentWhole {items : List Json} (h : d.Bears (.vector v))
    (hval : d.val = .array items) (hsent : v.val.all (sentWhole · v.integral) = true) :
    ∀ item ∈ items, item.isInteger = true := by
  obtain ⟨items', hval', hlength, hintegral⟩ := h.exists_items
  obtain rfl := Json.array.inj (hval.symm.trans hval')
  cases hv : v.val with
  | nil =>
    rw [hv, List.length_nil] at hlength
    simp [List.length_eq_zero_iff.mp hlength.symm]
  | cons x rest =>
    have hx := List.all_eq_true.mp hsent x (hv ▸ List.mem_cons_self)
    exact hintegral.mp (sentWhole_iff.mp hx).1

theorem Bears.sends_vector (h : d.Bears (.vector v)) : d.Sends (.vector v) v.value := by
  obtain ⟨items, hval, hlength, hintegral⟩ := h.exists_items
  rw [ScalarVector.value]
  split
  · next hsent =>
    refine .ints h.describes hval ?_ (h.isInteger_of_sentWhole hval hsent) ?_
    · rw [List.length_map, hlength]
    · rw [List.forall₂_map_right_iff, List.forall₂_same]
      intro x hx
      obtain ⟨-, n, hn⟩ := sentWhole_iff.mp (List.all_eq_true.mp hsent x hx)
      rwa [toInt_wholeInt64 hn]
  · next hsent =>
    refine .reals h.describes hval hlength fun hitems => ?_
    -- One of the numbers is not sent as an integer, and not because of what the node has sent.
    obtain ⟨x, hx, hnot⟩ : ∃ x ∈ v.val, ¬ sentWhole x v.integral = true := by
      simpa [List.all_eq_true] using hsent
    exact ⟨x, hx, fun n hn => hnot (sentWhole_iff.mpr ⟨hintegral.mpr hitems, n, hn⟩)⟩

theorem Bears.sends_choice {ch : Choice} {o : Value} (h : d.Bears (.choice ch))
    (ho : o ∈ ch.options) (hval : o = ch.val ∨ o.same ch.val = true) :
    d.Sends (.choice ch) ch.val := by
  obtain ⟨options, honeof, hoptions⟩ := h.exists_options
  obtain ⟨option, hoption, hw⟩ := hoptions o ho
  refine .choice h.describes honeof hoption hw ?_
  rcases hval with rfl | hsame
  · exact Value.same_self_of_ofJson? hw
  · exact hsame

/-- The form is that of no other value. -/
theorem Bears.eq_of_sends (h : d.Bears c) (hw : d.Sends c w) : w = c.value := by
  cases hw with
  | choice | flag | text => rfl
  | @int s n _ hsent hn =>
    have hwhole : sentWhole s.val s.integral = true :=
      sentWhole_iff.mpr ⟨h.integral_iff.mpr hsent, _, hn⟩
    rw [Control.value, Scalar.value, if_pos hwhole, ← Int64.toInt_inj.mp (toInt_wholeInt64 hn)]
  | @real s _ hnot =>
    have hwhole : ¬ sentWhole s.val s.integral = true := fun hsent => by
      obtain ⟨hintegral, n, hn⟩ := sentWhole_iff.mp hsent
      exact hnot (h.integral_iff.mp hintegral) n hn
    rw [Control.value, Scalar.value, if_neg hwhole]
  | @ints v items ns _ hval _ hsent hns =>
    obtain ⟨items', hval', -, hintegral⟩ := h.exists_items
    obtain rfl := Json.array.inj (hval.symm.trans hval')
    obtain ⟨hall, hmap⟩ := sentWhole_of_forall₂ hns
    rw [Control.value, ScalarVector.value, hintegral.mpr hsent, if_pos hall, hmap]
  | @reals v items _ hval _ hnot =>
    have hall : ¬ v.val.all (sentWhole · v.integral) = true := fun hsent => by
      obtain ⟨x, hx, hx'⟩ := hnot (h.isInteger_of_sentWhole hval hsent)
      obtain ⟨-, n, hn⟩ := sentWhole_iff.mp (List.all_eq_true.mp hsent x hx)
      exact hx' n hn
    rw [Control.value, ScalarVector.value, if_neg hall]

/-- The value of a control has the form that the definition asks for, if that of a choice is one of
the options, and no other value has that form. -/
theorem Bears.sends_iff (h : d.Bears c)
    (hchoice : ∀ ch, c = .choice ch → ∃ o ∈ ch.options, o = ch.val ∨ o.same ch.val = true) :
    d.Sends c w ↔ w = c.value := by
  refine ⟨h.eq_of_sends, ?_⟩
  rintro rfl
  cases c with
  | choice ch =>
    obtain ⟨o, ho, hval⟩ := hchoice ch rfl
    exact h.sends_choice ho hval
  | scalar s => exact h.sends_scalar
  | vector v => exact h.sends_vector
  | flag b => exact .flag h.describes
  | text s => exact .text h.describes
  | unresolved => exact absurd rfl h.describes.kind_ne_unresolved

end Definition
end LiveTuner
