import LiveTuner.Editor.Edit
import Mathlib.Tactic.SplitIfs

/-!
# What an edit can do

An edit that is taken gives the editor's parameter another value and nothing else: the kind, the
bounds and the options stay, and so does what the panel refers to. A pushed value is stored as the
parameter stores it by itself; an interaction tells the value that the parameter then has, unless it
opens or closes a panel.

An edit does not paint the editor anew. It changes the one part of the view that shows the value,
which comes to the same.

## Main definitions

* `Control.Revalued` — a control is another one with a different value
* `Editor.Stored` — an editor with a value stored in it
* `Editor.Edited`, `Editor.Interacted` — an editor after an interaction, whatever it is bound to,
  and bound to a parameter of its kind

## Main results

* `Editor.bindValue_eq_ok` — what a pushed value does
* `Editor.interact_eq_ok` — what an interaction does
* `Editor.Stored.rebuild_eq`, `Editor.rebuild_bindValue`, `Editor.Edited.rebuild_eq` — the view is
  the one that painting gives
-/

namespace LiveTuner

/-- A control is another one with a different value; the length of a vector stays. -/
def Control.Revalued : Control → Control → Prop
  | .choice c, .choice c' => c' = { c with val := c'.val }
  | .scalar s, .scalar s' => s' = { s with val := s'.val }
  | .vector v, .vector v' => v' = { v with val := v'.val } ∧ v'.val.length = v.val.length
  | .flag _, .flag _ => True
  | .text _, .text _ => True
  | _, _ => False

theorem Control.Revalued.kind_eq {c c' : Control} (h : c.Revalued c') : c'.kind = c.kind := by
  cases c <;> cases c' <;> first | rfl | exact h.elim

@[simp] theorem Param.name_withControl (p : Param) (c : Control) :
    (p.withControl c).name = p.name := rfl

@[simp] theorem Param.control?_withControl (p : Param) (c : Control) :
    (p.withControl c).control? = some c := rfl

theorem Param.eq_leaf_of_control? {p : Param} {c : Control} (h : p.control? = some c) :
    p = .leaf p.id p.name c := by
  cases p with
  | group => cases h
  | leaf i name control =>
    obtain rfl := Option.some.inj h
    rfl

theorem Param.exists_flag_of_kind {p : Param} (h : p.kind = .flag) :
    ∃ b, p.control? = some (.flag b) := by
  cases p with
  | group => cases h
  | leaf i name control =>
    cases control with
    | flag b => exact ⟨b, rfl⟩
    | choice | scalar | vector | text | unresolved => cases h

theorem Param.exists_text_of_kind {p : Param} (h : p.kind = .text) :
    ∃ s, p.control? = some (.text s) := by
  cases p with
  | group => cases h
  | leaf i name control =>
    cases control with
    | text s => exact ⟨s, rfl⟩
    | choice | scalar | vector | flag | unresolved => cases h

namespace Editor

variable {e e' : Editor} {val : Value} {val? : Option Value} {i : ParamId} {name : String}
  {c : Control}

/-! ### Views -/

theorem panelIds_movePanel (panel : List PanelItem) (xs : List Binary64) :
    panelIds (movePanel panel xs) = panelIds panel := by
  induction panel generalizing xs with
  | nil => cases xs <;> rfl
  | cons item rest ih =>
    cases item with
    | editor id =>
      cases xs with
      | nil => exact congrArg (id :: ·) (ih [])
      | cons x xs => exact congrArg (id :: ·) (ih (x :: xs))
    | slider s =>
      cases xs with
      | nil => rfl
      | cons x xs => exact ih xs

@[simp] theorem childIds_storeChoice (val : Value) (e : Editor) :
    (e.storeChoice val).view.childIds = e.view.childIds := by
  simp only [storeChoice, View.childIds]
  cases e.view.widget <;> rfl

@[simp] theorem childIds_storeScalar (x : Binary64) (e : Editor) :
    (e.storeScalar x).view.childIds = e.view.childIds := by
  simp only [storeScalar, View.childIds]
  cases e.view.widget <;> rfl

@[simp] theorem childIds_storeVector (xs : List Binary64) (e : Editor) :
    (e.storeVector xs).view.childIds = e.view.childIds := by
  simp only [storeVector, View.childIds]
  cases e.view.widget with
  | accordion title expanded panel => exact panelIds_movePanel panel xs
  | empty | slider | checkbox | select | textInput | placeholder => rfl

@[simp] theorem childIds_storeFlag (b : Bool) (e : Editor) :
    (e.storeFlag b).view.childIds = e.view.childIds := by
  simp only [storeFlag, View.childIds]
  cases e.view.widget <;> rfl

@[simp] theorem childIds_storeText (s : String) (e : Editor) :
    (e.storeText s).view.childIds = e.view.childIds := by
  simp only [storeText, View.childIds]
  cases e.view.widget <;> rfl

@[simp] theorem childIds_setExpanded (expanded : Bool) (e : Editor) :
    (e.setExpanded expanded).view.childIds = e.view.childIds := by
  simp only [setExpanded, View.childIds]
  cases e.view.widget <;> rfl

/-! ### Parameters -/

theorem param_storeChoice {c : Choice} (hp : e.param = .leaf i name (.choice c)) (val : Value) :
    (e.storeChoice val).param = .leaf i name (.choice { c with val := val }) := by
  simp [storeChoice, hp, Param.control?, Param.withControl, Param.id, Param.name]

theorem param_storeScalar {s : Scalar} (hp : e.param = .leaf i name (.scalar s)) (x : Binary64) :
    (e.storeScalar x).param = .leaf i name (.scalar { s with val := x }) := by
  simp [storeScalar, hp, Param.control?, Param.withControl, Param.id, Param.name]

theorem param_storeVector {v : ScalarVector} (hp : e.param = .leaf i name (.vector v))
    (xs : List Binary64) :
    (e.storeVector xs).param = .leaf i name (.vector { v with val := xs }) := by
  simp [storeVector, hp, Param.control?, Param.withControl, Param.id, Param.name]

theorem param_storeFlag (hp : e.param = .leaf i name c) (b : Bool) :
    (e.storeFlag b).param = .leaf i name (.flag b) := by
  simp [storeFlag, hp, Param.withControl, Param.id, Param.name]

theorem param_storeText (hp : e.param = .leaf i name c) (s : String) :
    (e.storeText s).param = .leaf i name (.text s) := by
  simp [storeText, hp, Param.withControl, Param.id, Param.name]

/-! ### Stored values -/

/-- An editor with a value stored in it that its parameter takes. -/
inductive Stored (e : Editor) : Editor → Prop where
  /-- A choice takes anything. -/
  | choice {i : ParamId} {name : String} {c : Choice} (hp : e.param = .leaf i name (.choice c))
    (val : Value) : Stored e (e.storeChoice val)
  /-- A scalar takes a number. -/
  | scalar {i : ParamId} {name : String} {s : Scalar} (hp : e.param = .leaf i name (.scalar s))
    (x : Binary64) : Stored e (e.storeScalar x)
  /-- A vector takes as many numbers as it has. -/
  | vector {i : ParamId} {name : String} {v : ScalarVector} {xs : List Binary64}
    (hp : e.param = .leaf i name (.vector v)) (hlength : xs.length = v.val.length) :
    Stored e (e.storeVector xs)
  /-- A flag takes a truth value. -/
  | flag {i : ParamId} {name : String} {b : Bool} (hp : e.param = .leaf i name (.flag b))
    (b' : Bool) : Stored e (e.storeFlag b')
  /-- A text takes another one. -/
  | text {i : ParamId} {name : String} {s : String} (hp : e.param = .leaf i name (.text s))
    (s' : String) : Stored e (e.storeText s')

namespace Stored

theorem kind_eq (h : Stored e e') : e'.kind = e.kind := by cases h <;> rfl

theorem serial_eq (h : Stored e e') : e'.serial = e.serial := by cases h <;> rfl

theorem labelled_eq (h : Stored e e') : e'.labelled = e.labelled := by cases h <;> rfl

theorem expanded_eq (h : Stored e e') : e'.expanded = e.expanded := by cases h <;> rfl

theorem childIds_eq (h : Stored e e') : e'.view.childIds = e.view.childIds := by
  cases h <;> simp

/-- A parameter that takes a value is no group, and nothing but its value changes. -/
theorem exists_revalued (h : Stored e e') :
    ∃ i name c c', e.param = .leaf i name c ∧ e'.param = .leaf i name c' ∧ c.Revalued c' := by
  cases h with
  | choice hp val => exact ⟨_, _, _, _, hp, param_storeChoice hp val, rfl⟩
  | scalar hp x => exact ⟨_, _, _, _, hp, param_storeScalar hp x, rfl⟩
  | vector hp hlength => exact ⟨_, _, _, _, hp, param_storeVector hp _, rfl, hlength⟩
  | flag hp b' => exact ⟨_, _, _, _, hp, param_storeFlag hp b', trivial⟩
  | text hp s' => exact ⟨_, _, _, _, hp, param_storeText hp s', trivial⟩

theorem exists_leaf (h : Stored e e') :
    ∃ i name c c', e.param = .leaf i name c ∧ e'.param = .leaf i name c' ∧ c'.kind = c.kind := by
  obtain ⟨i, name, c, c', hp, hp', hc⟩ := h.exists_revalued
  exact ⟨i, name, c, c', hp, hp', hc.kind_eq⟩

end Stored

/-! ### Painting -/

theorem rebuild_eq_iff : e.rebuild = e ↔ e.view = ⟨e.label, e.widget⟩ := by
  constructor
  · intro h
    exact (congrArg Editor.view h).symm
  · intro h
    rw [rebuild, ← h]

theorem components_cons (x lo hi : Binary64) (xs los his : List Binary64) (logScale : Bool)
    (step : Option Binary64) (integral : Bool) :
    ScalarVector.components ⟨x :: xs, lo :: los, hi :: his, logScale, step, integral⟩ =
      ⟨x, lo, hi, logScale, step, integral⟩ ::
        ScalarVector.components ⟨xs, los, his, logScale, step, integral⟩ := by
  simp only [ScalarVector.components, List.length_cons, List.range_succ_eq_map,
    List.filterMap_cons, List.filterMap_map]
  rfl

theorem components_eq_nil {v : ScalarVector} (h : v.val = [] ∨ v.min = [] ∨ v.max = []) :
    v.components = [] := by
  rcases h with h | h | h <;> simp [ScalarVector.components, ScalarVector.component?, h]

/-- The sliders of a vector, moved to as many numbers, are those of the vector of these numbers. -/
theorem movePanel_vectorPanel {v : ScalarVector} {xs : List Binary64}
    (h : xs.length = v.val.length) :
    movePanel (vectorPanel v) xs = vectorPanel { v with val := xs } := by
  obtain ⟨val, min, max, logScale, step, integral⟩ := v
  induction val generalizing xs min max with
  | nil =>
    obtain rfl := List.length_eq_zero_iff.mp h
    rfl
  | cons y ys ih =>
    obtain ⟨x, xs, rfl⟩ := List.exists_cons_of_length_eq_add_one h
    have hrest := fun min max => ih min max (Nat.succ.inj h)
    simp only [vectorPanel] at hrest ⊢
    -- Only an index with both bounds has a slider.
    match min, max with
    | lo :: los, hi :: his =>
      simp only [components_cons, List.map_cons, movePanel, hrest]
      rfl
    | [], _ | _, [] => simp [components_eq_nil, movePanel]

/-- The editor of a flag shows a checkbox, whatever it is bound to. -/
theorem widget_of_flag (hkind : e.kind = .flag) : e.widget = .checkbox e.checked := by
  simp only [widget, hkind, checked]
  split <;> simp [*]

/-- That of a text shows an input. -/
theorem exists_widget_of_text (hkind : e.kind = .text) : ∃ s, e.widget = .textInput s := by
  simp only [widget, hkind]
  split
  · exact ⟨_, rfl⟩
  · exact ⟨_, rfl⟩

/-- A stored value shows as it does when the editor is painted. An editor that is bound to a
parameter of another kind goes on showing nothing. -/
theorem rebuild_storeChoice (hkind : e.kind = .choice) (hpainted : e.rebuild = e) (val : Value) :
    (e.storeChoice val).rebuild = e.storeChoice val := by
  have hview := rebuild_eq_iff.mp hpainted
  rw [rebuild_eq_iff]
  cases hp : e.param.control? with
  | none => simp [storeChoice, hview, widget, label, hkind, hp]
  | some c => cases c <;> simp [storeChoice, hview, widget, label, hkind, hp, selectOf]

theorem rebuild_storeScalar (hkind : e.kind = .scalar) (hpainted : e.rebuild = e) (x : Binary64) :
    (e.storeScalar x).rebuild = e.storeScalar x := by
  have hview := rebuild_eq_iff.mp hpainted
  rw [rebuild_eq_iff]
  cases hp : e.param.control? with
  | none => simp [storeScalar, hview, widget, label, hkind, hp]
  | some c =>
    cases c <;>
      simp [storeScalar, hview, widget, label, hkind, hp, Slider.ofScalar, Slider.moveTo]

/-- The sliders of a vector are moved one by one, so there have to be as many numbers. -/
theorem rebuild_storeVector {xs : List Binary64} (hkind : e.kind = .vector)
    (hpainted : e.rebuild = e) (hlength : xs.length = e.vectorLength) :
    (e.storeVector xs).rebuild = e.storeVector xs := by
  have hview := rebuild_eq_iff.mp hpainted
  rw [rebuild_eq_iff]
  cases hp : e.param.control? with
  | none => simp [storeVector, hview, widget, label, hkind, hp]
  | some c =>
    cases c with
    | vector v =>
      rw [vectorLength, hp] at hlength
      simp [storeVector, hview, widget, label, title, hkind, hp, movePanel_vectorPanel hlength]
    | choice | scalar | flag | text | unresolved =>
      simp [storeVector, hview, widget, label, hkind, hp]

theorem rebuild_storeFlag (hkind : e.kind = .flag) (hpainted : e.rebuild = e) (b : Bool) :
    (e.storeFlag b).rebuild = e.storeFlag b := by
  have hview := rebuild_eq_iff.mp hpainted
  rw [widget_of_flag hkind] at hview
  rw [rebuild_eq_iff]
  simp [storeFlag, hview, widget, label, hkind]

theorem rebuild_storeText (hkind : e.kind = .text) (hpainted : e.rebuild = e) (s : String) :
    (e.storeText s).rebuild = e.storeText s := by
  have hview := rebuild_eq_iff.mp hpainted
  obtain ⟨s', hs'⟩ := exists_widget_of_text hkind
  rw [hs'] at hview
  rw [rebuild_eq_iff]
  simp [storeText, hview, widget, label, hkind]

/-- Any value that is stored shows as painting shows it. -/
theorem Stored.rebuild_eq (h : Stored e e') (hkind : e.kind = e.param.kind)
    (hpainted : e.rebuild = e) : e'.rebuild = e' := by
  cases h with
  | choice hp val =>
    rw [hp] at hkind
    exact rebuild_storeChoice hkind hpainted val
  | scalar hp x =>
    rw [hp] at hkind
    exact rebuild_storeScalar hkind hpainted x
  | vector hp hlength =>
    rw [hp] at hkind
    refine rebuild_storeVector hkind hpainted ?_
    simp [vectorLength, hp, Param.control?, hlength]
  | flag hp b' =>
    rw [hp] at hkind
    exact rebuild_storeFlag hkind hpainted b'
  | text hp s' =>
    rw [hp] at hkind
    exact rebuild_storeText hkind hpainted s'

/-- So does a panel that is opened or closed. -/
theorem rebuild_setExpanded (hpanel : hasPanel e.kind = true) (hpainted : e.rebuild = e)
    (expanded : Bool) : (e.setExpanded expanded).rebuild = e.setExpanded expanded := by
  have hview := rebuild_eq_iff.mp hpainted
  rw [rebuild_eq_iff]
  cases hkind : e.kind with
  | group =>
    cases hp : e.param with
    | group => simp [setExpanded, hview, widget, label, title, hkind, hp, hasPanel]
    | leaf => simp [setExpanded, hview, widget, label, hkind, hp, hasPanel]
  | vector =>
    cases hp : e.param.control? with
    | none => simp [setExpanded, hview, widget, label, hkind, hp, hasPanel]
    | some c => cases c <;> simp [setExpanded, hview, widget, label, title, hkind, hp, hasPanel]
  | choice | scalar | flag | text | unresolved => simp [hkind, hasPanel] at hpanel

/-! ### Pushed values -/

theorem badPush_ne_ok {α : Type} {a : α} : e.badPush val ≠ .ok a := by
  simp [badPush]

/-- A pushed value that is taken shows as painting shows it, whatever the editor is bound to. -/
theorem rebuild_bindValue (hpainted : e.rebuild = e) (h : e.bindValue val = .ok e') :
    e'.rebuild = e' := by
  unfold bindValue at h
  cases hkind : e.kind with
  | choice =>
    rw [hkind] at h
    obtain rfl := Except.ok.inj h
    exact rebuild_storeChoice hkind hpainted val
  | scalar =>
    simp only [hkind] at h
    split at h
    · obtain rfl := Except.ok.inj h
      exact rebuild_storeScalar hkind hpainted _
    · exact absurd h badPush_ne_ok
  | vector =>
    simp only [hkind] at h
    split at h
    · split_ifs at h with hlength
      · obtain rfl := Except.ok.inj h
        exact rebuild_storeVector hkind hpainted hlength
      · exact absurd h badPush_ne_ok
    · exact absurd h badPush_ne_ok
  | flag =>
    simp only [hkind] at h
    split at h
    · obtain rfl := Except.ok.inj h
      exact rebuild_storeFlag hkind hpainted _
    · exact absurd h badPush_ne_ok
  | text =>
    simp only [hkind] at h
    split at h
    · obtain rfl := Except.ok.inj h
      exact rebuild_storeText hkind hpainted _
    · exact absurd h badPush_ne_ok
  | group | unresolved =>
    rw [hkind] at h
    exact absurd h badPush_ne_ok

/-- A pushed value that is taken is stored as the parameter stores it by itself. -/
theorem bindValue_eq_ok (hkind : e.kind = e.param.kind) (h : e.bindValue val = .ok e') :
    Stored e e' ∧ e.param.setValue? val = some e'.param := by
  unfold bindValue at h
  rw [hkind] at h
  cases hp : e.param with
  | group i name params hidden =>
    rw [hp] at h
    exact absurd h badPush_ne_ok
  | leaf i name c =>
    rw [hp] at h
    cases c with
    | choice c =>
      obtain rfl := Except.ok.inj h
      refine ⟨.choice hp val, ?_⟩
      rw [param_storeChoice hp]
      rfl
    | scalar s =>
      simp only [Param.kind, Control.kind] at h
      split at h
      · next x hx =>
        obtain rfl := Except.ok.inj h
        refine ⟨.scalar hp x, ?_⟩
        rw [param_storeScalar hp]
        simp [Param.setValue?, Control.setValue?, hx]
      · exact absurd h badPush_ne_ok
    | vector v =>
      simp only [Param.kind, Control.kind] at h
      split at h
      · next xs hxs =>
        split_ifs at h with hlength
        · obtain rfl := Except.ok.inj h
          have hlength' : xs.length = v.val.length := by
            simpa [vectorLength, hp, Param.control?] using hlength
          refine ⟨.vector hp hlength', ?_⟩
          rw [param_storeVector hp]
          simp [Param.setValue?, Control.setValue?, hxs, hlength']
        · exact absurd h badPush_ne_ok
      · exact absurd h badPush_ne_ok
    | flag b =>
      simp only [Param.kind, Control.kind] at h
      split at h
      · obtain rfl := Except.ok.inj h
        refine ⟨.flag hp _, ?_⟩
        rw [param_storeFlag hp]
        rfl
      · exact absurd h badPush_ne_ok
    | text s =>
      simp only [Param.kind, Control.kind] at h
      split at h
      · obtain rfl := Except.ok.inj h
        refine ⟨.text hp _, ?_⟩
        rw [param_storeText hp]
        rfl
      · exact absurd h badPush_ne_ok
    | unresolved cause d => exact absurd h badPush_ne_ok

/-- A control with a value that fits is another one with that value. -/
theorem revalued_of_setValue? {c' : Control} (h : c.setValue? val = some c') : c.Revalued c' := by
  cases c with
  | choice c =>
    obtain rfl := Option.some.inj h
    exact rfl
  | scalar s =>
    obtain ⟨x, -, rfl⟩ := Option.map_eq_some_iff.mp h
    exact rfl
  | vector v =>
    rw [Control.setValue?] at h
    split at h
    · split_ifs at h with hlength
      obtain rfl := Option.some.inj h
      exact ⟨rfl, hlength⟩
    · exact absurd h (by simp)
  | flag b =>
    unfold Control.setValue? at h
    dsimp only at h
    split at h
    · obtain rfl := Option.some.inj h
      trivial
    · exact absurd h (by simp)
  | text s =>
    unfold Control.setValue? at h
    dsimp only at h
    split at h
    · obtain rfl := Option.some.inj h
      trivial
    · exact absurd h (by simp)
  | unresolved cause d => exact absurd h (by simp [Control.setValue?])

/-! ### Interactions -/

theorem refuse_ne_ok {α : Type} {refusal : Refusal} {a : α} : e.refuse refusal ≠ .ok a := by
  simp [refuse]

/-- What an editor does when it takes an interaction, whatever it is bound to, and the value that it
tells. -/
inductive Edited (e : Editor) : Interaction → Editor → Option Value → Prop where
  /-- A choice takes a value. -/
  | choice {interaction : Interaction} {c : Choice} (hkind : e.kind = .choice)
    (hc : e.param.control? = some (.choice c)) (val : Value) :
    Edited e interaction (e.storeChoice val) (some val)
  /-- A scalar takes a number. -/
  | scalar {interaction : Interaction} {s : Scalar} (hkind : e.kind = .scalar)
    (hs : e.param.control? = some (.scalar s)) (x : Binary64) :
    Edited e interaction (e.storeScalar x) (some (Scalar.value { s with val := x }))
  /-- A vector takes as many numbers as it has. -/
  | vector {interaction : Interaction} {v : ScalarVector} {xs : List Binary64}
    (hkind : e.kind = .vector) (hv : e.param.control? = some (.vector v))
    (hlength : xs.length = v.val.length) :
    Edited e interaction (e.storeVector xs) (some (ScalarVector.value { v with val := xs }))
  /-- A flag takes a truth value. -/
  | flag {interaction : Interaction} (hkind : e.kind = .flag) (b : Bool) :
    Edited e interaction (e.storeFlag b) (some (.bool b))
  /-- A text takes another one. -/
  | text {interaction : Interaction} (hkind : e.kind = .text) (s : String) :
    Edited e interaction (e.storeText s) (some (.text s))
  /-- A panel is opened or closed. -/
  | toggled (hpanel : hasPanel e.kind = true) :
    Edited e .toggle (e.setExpanded (!e.expanded)) none

variable {interaction : Interaction}

theorem edited_of_interactGroup (hkind : e.kind = .group)
    (h : e.interactGroup interaction = .ok (e', val?)) : Edited e interaction e' val? := by
  unfold interactGroup at h
  split at h
  · obtain ⟨rfl, rfl⟩ := Prod.mk.inj (Except.ok.inj h)
    exact .toggled (by rw [hkind]; rfl)
  · exact absurd h refuse_ne_ok

theorem edited_of_interactChoice (hkind : e.kind = .choice)
    (h : e.interactChoice interaction = .ok (e', val?)) : Edited e interaction e' val? := by
  unfold interactChoice at h
  split at h
  · next c hc =>
    split at h
    · split at h
      · obtain ⟨rfl, rfl⟩ := Prod.mk.inj (Except.ok.inj h)
        exact .choice hkind hc _
      · exact absurd h refuse_ne_ok
    · split_ifs at h
      · obtain ⟨rfl, rfl⟩ := Prod.mk.inj (Except.ok.inj h)
        exact .choice hkind hc _
      · exact absurd h refuse_ne_ok
    · exact absurd h refuse_ne_ok
  · exact absurd h refuse_ne_ok

/-- A choice tells one of its options, or a value that is as good as one. -/
theorem exists_option_of_interactChoice {c : Choice} (hc : e.param.control? = some (.choice c))
    (h : e.interactChoice interaction = .ok (e', some val)) :
    ∃ option ∈ c.options, option = val ∨ option.same val = true := by
  rw [interactChoice, hc] at h
  dsimp only at h
  split at h
  · split at h
    · next option hoption =>
      obtain ⟨rfl, hval⟩ := Prod.mk.inj (Except.ok.inj h)
      exact ⟨option, List.mem_of_getElem? hoption, Or.inl (Option.some.inj hval)⟩
    · exact absurd h refuse_ne_ok
  · split_ifs at h with hsame
    · obtain ⟨rfl, ⟨⟩⟩ := Prod.mk.inj (Except.ok.inj h)
      obtain ⟨option, hoption, hval⟩ := List.any_eq_true.mp hsame
      exact ⟨option, hoption, Or.inr hval⟩
    · exact absurd h refuse_ne_ok
  · exact absurd h refuse_ne_ok

theorem edited_of_interactScalar (hkind : e.kind = .scalar)
    (h : e.interactScalar interaction = .ok (e', val?)) : Edited e interaction e' val? := by
  unfold interactScalar at h
  split at h
  · split at h
    · exact absurd h refuse_ne_ok
    · split at h
      · next s hs =>
        split_ifs at h
        · exact absurd h refuse_ne_ok
        · obtain ⟨rfl, rfl⟩ := Prod.mk.inj (Except.ok.inj h)
          exact .scalar hkind hs _
      · exact absurd h refuse_ne_ok
  · exact absurd h refuse_ne_ok

/-- Numbers are stored only if they are as many as before. -/
theorem edited_of_tryVector {v : ScalarVector} {xs : List Binary64} (hkind : e.kind = .vector)
    (hv : e.param.control? = some (.vector v)) (h : e.tryVector v xs = .ok (e', val?)) :
    Edited e interaction e' val? := by
  rw [tryVector] at h
  split_ifs at h with hlength
  · exact absurd h refuse_ne_ok
  · split at h
    · exact absurd h refuse_ne_ok
    · obtain ⟨rfl, rfl⟩ := Prod.mk.inj (Except.ok.inj h)
      exact .vector hkind hv (Decidable.not_not.mp hlength)

theorem edited_of_interactVector (hkind : e.kind = .vector)
    (h : e.interactVector interaction = .ok (e', val?)) : Edited e interaction e' val? := by
  unfold interactVector at h
  split at h
  · next v hv =>
    split at h
    · obtain ⟨rfl, rfl⟩ := Prod.mk.inj (Except.ok.inj h)
      exact .toggled (by rw [hkind]; rfl)
    · split_ifs at h
      · exact edited_of_tryVector hkind hv h
      · exact absurd h refuse_ne_ok
    · split at h
      · exact edited_of_tryVector hkind hv h
      · exact absurd h refuse_ne_ok
    · exact absurd h refuse_ne_ok
  · exact absurd h refuse_ne_ok

theorem edited_of_interactFlag (hkind : e.kind = .flag)
    (h : e.interactFlag interaction = .ok (e', val?)) : Edited e interaction e' val? := by
  simp only [interactFlag] at h
  split at h
  · obtain ⟨rfl, rfl⟩ := Prod.mk.inj (Except.ok.inj h)
    exact .flag hkind _
  · obtain ⟨rfl, rfl⟩ := Prod.mk.inj (Except.ok.inj h)
    exact .flag hkind _
  · exact absurd h refuse_ne_ok

theorem edited_of_interactText (hkind : e.kind = .text)
    (h : e.interactText interaction = .ok (e', val?)) : Edited e interaction e' val? := by
  unfold interactText at h
  split at h
  · obtain ⟨rfl, rfl⟩ := Prod.mk.inj (Except.ok.inj h)
    exact .text hkind _
  · exact absurd h refuse_ne_ok

/-- An interaction that is taken stores a value that suits the kind of the editor, or opens or
closes its panel. -/
theorem edited_of_interact (h : e.interact interaction = .ok (e', val?)) :
    Edited e interaction e' val? := by
  rw [interact] at h
  cases hkind : e.kind with
  | group => exact edited_of_interactGroup hkind (by rwa [hkind] at h)
  | choice => exact edited_of_interactChoice hkind (by rwa [hkind] at h)
  | scalar => exact edited_of_interactScalar hkind (by rwa [hkind] at h)
  | vector => exact edited_of_interactVector hkind (by rwa [hkind] at h)
  | flag => exact edited_of_interactFlag hkind (by rwa [hkind] at h)
  | text => exact edited_of_interactText hkind (by rwa [hkind] at h)
  | unresolved =>
    rw [hkind] at h
    exact absurd h refuse_ne_ok

/-- What comes of an interaction shows as painting shows it. -/
theorem Edited.rebuild_eq (h : Edited e interaction e' val?) (hpainted : e.rebuild = e) :
    e'.rebuild = e' := by
  cases h with
  | choice hkind hc val => exact rebuild_storeChoice hkind hpainted val
  | scalar hkind hs x => exact rebuild_storeScalar hkind hpainted x
  | vector hkind hv hlength =>
    refine rebuild_storeVector hkind hpainted ?_
    rw [vectorLength, hv, hlength]
  | flag hkind b => exact rebuild_storeFlag hkind hpainted b
  | text hkind s => exact rebuild_storeText hkind hpainted s
  | toggled hpanel => exact rebuild_setExpanded hpanel hpainted (!e.expanded)

/-- The editor after an interaction, and the value that it tells. -/
inductive Interacted (e : Editor) : Interaction → Editor → Option Value → Prop where
  /-- A panel is opened or closed. -/
  | toggled (hpanel : hasPanel e.kind = true) :
    Interacted e .toggle (e.setExpanded (!e.expanded)) none
  /-- The parameter has another value, and that is told. -/
  | stored {interaction : Interaction} {e' : Editor} {i : ParamId} {name : String}
    {c c' : Control} (h : Stored e e') (hp : e.param = .leaf i name c)
    (hp' : e'.param = .leaf i name c') (hc : c.Revalued c') :
    Interacted e interaction e' (some c'.value)

/-- Bound to a parameter of its kind, an editor stores and tells what the parameter takes. -/
theorem Edited.interacted (h : Edited e interaction e' val?) (hkind : e.kind = e.param.kind) :
    Interacted e interaction e' val? := by
  cases h with
  | choice _ hc val =>
    have hp := Param.eq_leaf_of_control? hc
    exact .stored (.choice hp val) hp (param_storeChoice hp val) rfl
  | scalar _ hs x =>
    have hp := Param.eq_leaf_of_control? hs
    exact .stored (.scalar hp x) hp (param_storeScalar hp x) rfl
  | vector _ hv hlength =>
    have hp := Param.eq_leaf_of_control? hv
    exact .stored (.vector hp hlength) hp (param_storeVector hp _) ⟨rfl, hlength⟩
  | flag hflag b =>
    obtain ⟨b', hb'⟩ := Param.exists_flag_of_kind (hkind.symm.trans hflag)
    have hp := Param.eq_leaf_of_control? hb'
    exact .stored (.flag hp b) hp (param_storeFlag hp b) trivial
  | text htext s =>
    obtain ⟨s', hs'⟩ := Param.exists_text_of_kind (hkind.symm.trans htext)
    have hp := Param.eq_leaf_of_control? hs'
    exact .stored (.text hp s) hp (param_storeText hp s) trivial
  | toggled hpanel => exact .toggled hpanel

/-- An interaction that is taken opens or closes a panel, or stores a value and tells the one that
the parameter then has. -/
theorem interact_eq_ok (hkind : e.kind = e.param.kind)
    (h : e.interact interaction = .ok (e', val?)) : Interacted e interaction e' val? :=
  (edited_of_interact h).interacted hkind

/-- A panel can always be opened or closed. -/
theorem interact_toggle (hpanel : hasPanel e.kind = true) (hkind : e.kind = e.param.kind) :
    e.interact .toggle = .ok (e.setExpanded (!e.expanded), none) := by
  cases hp : e.param with
  | group i name params hidden =>
    rw [hp] at hkind
    rw [interact, hkind]
    rfl
  | leaf i name c =>
    rw [hp] at hkind
    cases c with
    | vector v =>
      rw [interact, hkind]
      simp [Param.kind, Control.kind, interactVector, hp, Param.control?]
    | choice | scalar | flag | text | unresolved =>
      simp [hkind, Param.kind, Control.kind, hasPanel] at hpanel

end Editor

end LiveTuner
