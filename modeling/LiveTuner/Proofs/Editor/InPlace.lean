import LiveTuner.Proofs.Editor.Edit
import LiveTuner.Proofs.InPlace

/-!
# Edits in place

An editor that takes an edit moves the one part of its view that shows the value, and does not paint
itself anew. Two things are to be shown of that. What it shows afterwards is what painting it would
show, for every kind of editor, for values outside the bounds and for options that are repeated or
missing. And an edit that is refused has not touched the editor: the edits are written out here step
by step, with the checks and the stores in their order, and none of them stores before its last
check.

An editor may be bound to a parameter of another kind. It then shows what it can, and that goes on
being what painting shows.

## Main definitions

* `Editor.bindValueInPlace`, `Editor.interactInPlace` — an edit, step by step

## Main results

* `Editor.carriesOut_bindValueInPlace`, `Editor.carriesOut_interactInPlace` — the steps come to the
  edit
* `Editor.edit_shows_as_painted` — an edit shows as painting shows it, or changes nothing
-/

namespace LiveTuner.Editor

open InPlace

variable {e e' : Editor} {val : Value} {val? : Option Value} {interaction : Interaction}

/-! ### Steps -/

/-- Complains about a pushed value. -/
def badPushInPlace (val : Value) : InPlace Editor Unit := do
  let e ← get
  throw (.unexpected (.push e.param.id val) (.editor e.param.kind e.param.name))

/-- Complains about an interaction. -/
def refuseInPlace {α : Type} (refusal : Refusal) : InPlace Editor α := do
  let e ← get
  throw (.refused e.param.id refusal)

/-- Takes a pushed value, or complains about it. -/
def bindValueInPlace (val : Value) : InPlace Editor Unit := do
  let e ← get
  match e.kind with
  | .choice => modify (storeChoice val)
  | .scalar =>
    match val.toReal? with
    | some x => modify (storeScalar x)
    | none => badPushInPlace val
  | .vector =>
    match val.toReals? with
    | some xs =>
      if xs.length = e.vectorLength then modify (storeVector xs) else badPushInPlace val
    | none => badPushInPlace val
  | .flag =>
    match val with
    | .bool b => modify (storeFlag b)
    | _ => badPushInPlace val
  | .text =>
    match val with
    | .text s => modify (storeText s)
    | _ => badPushInPlace val
  | .group | .unresolved => badPushInPlace val

/-- The value to tell once numbers have been stored: that of the parameter as it is by then. -/
def tellInPlace : InPlace Editor (Option Value) := do
  let e ← get
  match e.param.control? with
  | some (.scalar s) => pure (some s.value)
  | some (.vector v) => pure (some v.value)
  | _ => pure none

/-- Opens or closes the panel. -/
def toggleInPlace : InPlace Editor (Option Value) := do
  modify fun e => e.setExpanded (!e.expanded)
  pure none

/-- Stores an option and tells it. -/
def pickInPlace (val : Value) : InPlace Editor (Option Value) := do
  modify (storeChoice val)
  pure (some val)

def interactChoiceInPlace (interaction : Interaction) : InPlace Editor (Option Value) := do
  let e ← get
  match e.param.control? with
  | some (.choice c) =>
    match interaction with
    | .pick index =>
      match c.options[index]? with
      | some val => pickInPlace val
      | none => refuseInPlace (.noOption index)
    | .setValue val =>
      if c.options.any (·.same val) then pickInPlace val else refuseInPlace (.notAnOption val)
    | other => refuseInPlace (.unsupported other)
  | _ => refuseInPlace .notChoice

def interactScalarInPlace (interaction : Interaction) : InPlace Editor (Option Value) := do
  match interaction with
  | .setValue val =>
    match val.toReal? with
    | none => refuseInPlace (.notNumber val)
    | some x =>
      let e ← get
      match e.param.control? with
      | some (.scalar s) =>
        if x.lt s.min || s.max.lt x then refuseInPlace (.outside x s.min s.max)
        else
          modify (storeScalar x)
          tellInPlace
      | _ => refuseInPlace .notScalar
  | _ => refuseInPlace .sliderOnly

/-- Complains unless there are as many numbers as before, none outside its bounds. -/
def checkRangeInPlace (v : ScalarVector) (xs : List Binary64) : InPlace Editor Unit :=
  if xs.length ≠ v.val.length then refuseInPlace (.wrongLength v.val.length xs.length)
  else
    match firstOutside? 0 xs v.min v.max with
    | some refusal => refuseInPlace refusal
    | none => pure ()

/-- Stores numbers in a vector if they may stand there. -/
def tryVectorInPlace (v : ScalarVector) (xs : List Binary64) : InPlace Editor (Option Value) := do
  checkRangeInPlace v xs
  modify (storeVector xs)
  tellInPlace

def interactVectorInPlace (interaction : Interaction) : InPlace Editor (Option Value) := do
  let e ← get
  match e.param.control? with
  | some (.vector v) =>
    match interaction with
    | .toggle => toggleInPlace
    | .setComponent index x =>
      if index < v.val.length then tryVectorInPlace v (v.val.set index x)
      else refuseInPlace (.noComponent index)
    | .setValue val =>
      match val.toReals? with
      | some xs => tryVectorInPlace v xs
      | none => refuseInPlace (.notNumbers val)
    | other => refuseInPlace (.unsupported other)
  | _ => refuseInPlace .notVector

/-- Stores a truth value and tells it. -/
def checkInPlace (b : Bool) : InPlace Editor (Option Value) := do
  modify (storeFlag b)
  pure (some (.bool b))

def interactFlagInPlace (interaction : Interaction) : InPlace Editor (Option Value) := do
  let e ← get
  match interaction with
  | .toggle => checkInPlace (!e.checked)
  | .setValue (.bool b) => checkInPlace b
  | other => refuseInPlace (.checkboxOnly other)

def interactTextInPlace (interaction : Interaction) : InPlace Editor (Option Value) := do
  match interaction with
  | .setValue (.text s) =>
    modify (storeText s)
    pure (some (.text s))
  | _ => refuseInPlace .textOnly

def interactGroupInPlace (interaction : Interaction) : InPlace Editor (Option Value) :=
  match interaction with
  | .toggle => toggleInPlace
  | _ => refuseInPlace .groupHasNoValue

/-- Applies an interaction of the user, and answers with the value to send to the node. -/
def interactInPlace (interaction : Interaction) : InPlace Editor (Option Value) := do
  let e ← get
  match e.kind with
  | .group => interactGroupInPlace interaction
  | .choice => interactChoiceInPlace interaction
  | .scalar => interactScalarInPlace interaction
  | .vector => interactVectorInPlace interaction
  | .flag => interactFlagInPlace interaction
  | .text => interactTextInPlace interaction
  | .unresolved => refuseInPlace .unresolved

/-! ### What the steps come to -/

@[simp] theorem outcome_badPushInPlace (val : Value) (e : Editor) :
    (badPushInPlace val).outcome e =
      some (settle e ((e.badPush val : Except Problem Editor).map (·, ()))) := rfl

@[simp] theorem outcome_refuseInPlace {α : Type} (refusal : Refusal) (e : Editor) :
    (refuseInPlace refusal : InPlace Editor α).outcome e = some (settle e (e.refuse refusal)) := rfl

@[simp] theorem outcome_toggleInPlace (e : Editor) :
    toggleInPlace.outcome e = some (.ok none, e.setExpanded (!e.expanded)) := rfl

@[simp] theorem outcome_pickInPlace (val : Value) (e : Editor) :
    (pickInPlace val).outcome e = some (.ok (some val), e.storeChoice val) := rfl

@[simp] theorem outcome_checkInPlace (b : Bool) (e : Editor) :
    (checkInPlace b).outcome e = some (.ok (some (.bool b)), e.storeFlag b) := rfl

/-- The steps of a pushed value come to what the editor makes of it. -/
theorem carriesOut_bindValueInPlace (val : Value) :
    (bindValueInPlace val).CarriesOut fun e => some ((e.bindValue val).map (·, ())) := by
  intro e
  simp only [bindValueInPlace, bindValue, outcome_get_bind, Option.map_some]
  cases e.kind with
  | choice => rfl
  | scalar =>
    cases val.toReal? with
    | some x => rfl
    | none => rfl
  | vector =>
    cases val.toReals? with
    | some xs =>
      dsimp only
      split
      · rfl
      · rfl
    | none => rfl
  | flag => cases val <;> rfl
  | text => cases val <;> rfl
  | group | unresolved => rfl

/-- What is told of a scalar is the number that has just been stored. -/
theorem outcome_tellInPlace_storeScalar {s : Scalar} (h : e.param.control? = some (.scalar s))
    (x : Binary64) :
    tellInPlace.outcome (e.storeScalar x) =
      some (.ok (some (Scalar.value { s with val := x })), e.storeScalar x) := by
  have hstored : (e.storeScalar x).param.control? = some (.scalar { s with val := x }) := by
    simp [storeScalar, h]
  rw [tellInPlace, outcome_get_bind, hstored]
  rfl

theorem outcome_tellInPlace_storeVector {v : ScalarVector}
    (h : e.param.control? = some (.vector v)) (xs : List Binary64) :
    tellInPlace.outcome (e.storeVector xs) =
      some (.ok (some (ScalarVector.value { v with val := xs })), e.storeVector xs) := by
  have hstored : (e.storeVector xs).param.control? = some (.vector { v with val := xs }) := by
    simp [storeVector, h]
  rw [tellInPlace, outcome_get_bind, hstored]
  rfl

/-- Numbers are checked before any of them is stored. -/
theorem outcome_tryVectorInPlace {v : ScalarVector} (h : e.param.control? = some (.vector v))
    (xs : List Binary64) :
    (tryVectorInPlace v xs).outcome e = some (settle e (e.tryVector v xs)) := by
  rw [tryVectorInPlace, outcome_bind, checkRangeInPlace, tryVector]
  split_ifs
  · rfl
  · cases firstOutside? 0 xs v.min v.max with
    | some refusal => rfl
    | none => simp [outcome_tellInPlace_storeVector h]

theorem outcome_interactChoiceInPlace (interaction : Interaction) (e : Editor) :
    (interactChoiceInPlace interaction).outcome e =
      some (settle e (e.interactChoice interaction)) := by
  rw [interactChoiceInPlace, outcome_get_bind, interactChoice]
  cases e.param.control? with
  | none => rfl
  | some control =>
    cases control with
    | choice c =>
      cases interaction with
      | pick index =>
        dsimp only
        cases c.options[index]? with
        | some val => rfl
        | none => rfl
      | setValue val =>
        dsimp only
        split_ifs
        · rfl
        · rfl
      | setComponent | toggle => rfl
    | scalar | vector | flag | text | unresolved => rfl

theorem outcome_interactScalarInPlace (interaction : Interaction) (e : Editor) :
    (interactScalarInPlace interaction).outcome e =
      some (settle e (e.interactScalar interaction)) := by
  cases interaction with
  | setComponent | pick | toggle => rfl
  | setValue val =>
    rw [interactScalarInPlace, interactScalar]
    cases val.toReal? with
    | none => rfl
    | some x =>
      -- A number is taken if the editor is bound to a scalar, and within the bounds of that.
      rw [outcome_get_bind]
      cases hcontrol : e.param.control? with
      | none => rfl
      | some control =>
        cases control with
        | scalar s =>
          dsimp only
          split_ifs
          · rfl
          · simp [outcome_tellInPlace_storeScalar hcontrol]
        | choice | vector | flag | text | unresolved => rfl

theorem outcome_interactVectorInPlace (interaction : Interaction) (e : Editor) :
    (interactVectorInPlace interaction).outcome e =
      some (settle e (e.interactVector interaction)) := by
  rw [interactVectorInPlace, outcome_get_bind, interactVector]
  cases hcontrol : e.param.control? with
  | none => rfl
  | some control =>
    cases control with
    | vector v =>
      have htry := outcome_tryVectorInPlace hcontrol
      cases interaction with
      | toggle | pick => rfl
      | setComponent index x =>
        dsimp only
        split_ifs
        · exact htry _
        · rfl
      | setValue val =>
        dsimp only
        cases val.toReals? with
        | some xs => exact htry xs
        | none => rfl
    | choice | scalar | flag | text | unresolved => rfl

theorem outcome_interactFlagInPlace (interaction : Interaction) (e : Editor) :
    (interactFlagInPlace interaction).outcome e =
      some (settle e (e.interactFlag interaction)) := by
  cases interaction with
  | setValue val => cases val <;> rfl
  | setComponent | pick | toggle => rfl

theorem outcome_interactTextInPlace (interaction : Interaction) (e : Editor) :
    (interactTextInPlace interaction).outcome e =
      some (settle e (e.interactText interaction)) := by
  cases interaction with
  | setValue val => cases val <;> rfl
  | setComponent | pick | toggle => rfl

/-- The steps of an interaction come to what the editor makes of it. -/
theorem carriesOut_interactInPlace (interaction : Interaction) :
    (interactInPlace interaction).CarriesOut fun e => some (e.interact interaction) := by
  intro e
  rw [interactInPlace, outcome_get_bind, Option.map_some, interact]
  cases e.kind with
  | group => cases interaction <;> rfl
  | choice => exact outcome_interactChoiceInPlace interaction e
  | scalar => exact outcome_interactScalarInPlace interaction e
  | vector => exact outcome_interactVectorInPlace interaction e
  | flag => exact outcome_interactFlagInPlace interaction e
  | text => exact outcome_interactTextInPlace interaction e
  | unresolved => rfl

/-! ### What is left -/

/-- An editor of any kind shows what painting shows of the definition and the panel that it has. A
value is pushed to it, or the user interacts with it. Carried out step by step, the edit is either
taken, and the editor then shows what painting it anew would show; or it is refused, and definition,
panel and view are as they were. -/
theorem edit_shows_as_painted (hpainted : e.rebuild = e) :
    (∀ val,
      (∃ e', e.bindValue val = .ok e' ∧ (bindValueInPlace val).outcome e = some (.ok (), e') ∧
        e'.rebuild = e') ∨
      ∃ problem, e.bindValue val = .error problem ∧
        (bindValueInPlace val).outcome e = some (.error problem, e)) ∧
    ∀ interaction,
      (∃ e' val?, e.interact interaction = .ok (e', val?) ∧
        (interactInPlace interaction).outcome e = some (.ok val?, e') ∧ e'.rebuild = e') ∨
      ∃ problem, e.interact interaction = .error problem ∧
        (interactInPlace interaction).outcome e = some (.error problem, e) := by
  constructor
  · intro val
    have hsteps := carriesOut_bindValueInPlace val
    cases h : e.bindValue val with
    | ok e' =>
      have htaken := hsteps.outcome_ok (s := e) (by rw [h]; rfl)
      exact Or.inl ⟨e', rfl, htaken, rebuild_bindValue hpainted h⟩
    | error problem => exact Or.inr ⟨problem, rfl, hsteps.outcome_error (by rw [h]; rfl)⟩
  · intro interaction
    have hsteps := carriesOut_interactInPlace interaction
    cases h : e.interact interaction with
    | ok result =>
      have htaken := hsteps.outcome_ok (congrArg some h)
      exact Or.inl ⟨result.1, result.2, rfl, htaken, (edited_of_interact h).rebuild_eq hpainted⟩
    | error problem => exact Or.inr ⟨problem, rfl, hsteps.outcome_error (congrArg some h)⟩

/-- Two integers that are at least zero and at most five. -/
def sampleFader : Param :=
  .leaf ⟨2⟩ "fader"
    (.vector ⟨[.ofInt 1, .ofInt 2], [.ofInt 0, .ofInt 0], [.ofInt 5, .ofInt 5], false, none, true⟩)

/-- Their editor. -/
def sampleEditor : Editor := (create sampleFader true 1).rebuild

/-- The numbers beside the sliders of a panel. -/
def readouts (v : View) : List String :=
  match v.widget with
  | .accordion _ _ panel => panel.filterMap fun
    | .slider s => some s.readout
    | .editor _ => none
  | _ => []

theorem sampleEditor_shows_as_painted :
    sampleEditor.rebuild = sampleEditor ∧
    ∃ e', sampleEditor.interact (.setComponent 1 (.ofInt 4)) = .ok (e', some (.ints [1, 4])) ∧
      (interactInPlace (.setComponent 1 (.ofInt 4))).outcome sampleEditor =
        some (.ok (some (.ints [1, 4])), e') ∧
      e'.rebuild = e' ∧ readouts e'.view = ["1", "4"] := by
  have hrun : ((sampleEditor.interact (.setComponent 1 (.ofInt 4))).toOption.map fun r =>
      (r.2, readouts r.1.view)) = some (some (.ints [1, 4]), ["1", "4"]) := by decide +kernel
  refine ⟨rfl, ?_⟩
  obtain ⟨-, hinteract⟩ := edit_shows_as_painted (e := sampleEditor) rfl
  rcases hinteract (.setComponent 1 (.ofInt 4)) with
    ⟨e', val?, h, houtcome, hpainted⟩ | ⟨problem, h, -⟩
  · rw [h] at hrun
    obtain ⟨rfl, hreadouts⟩ := Prod.mk.inj (Option.some.inj hrun)
    exact ⟨e', h, houtcome, hpainted, hreadouts⟩
  · rw [h] at hrun
    cases hrun

end LiveTuner.Editor
