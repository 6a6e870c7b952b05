import LiveTuner.Editor.Basic
import LiveTuner.Problem

/-!
# Edits

An editor takes new values from two sides: pushed by the node, and by interactions of the user. An
edit that is taken changes the bound definition and, in the same step, the part of the view that
shows the value; one that is refused changes nothing.

A pushed value has to fit the kind of the editor only. An interaction also has to respect the
bounds and the options.

## Main definitions

* `Editor.bindValue` — a value pushed by the node
* `Editor.interact` — an interaction of the user, with the value to send to the node
-/

namespace LiveTuner.Editor

/-! ### Storing values -/

/-- The editor with another value of the choice it is bound to, and the selection that follows. -/
def storeChoice (val : Value) (e : Editor) : Editor :=
  let (param, selection) := match e.param.control? with
    | some (.choice c) =>
      let c := { c with val := val }
      (e.param.withControl (.choice c), c.selected)
    | _ => (e.param, none)
  let widget := match e.view.widget with
    | .select options _ => .select options selection
    | widget => widget
  { e with param := param, view := { e.view with widget := widget } }

/-- The editor with another value of the scalar it is bound to, and the slider moved there. -/
def storeScalar (x : Binary64) (e : Editor) : Editor :=
  let param := match e.param.control? with
    | some (.scalar s) => e.param.withControl (.scalar { s with val := x })
    | _ => e.param
  let widget := match e.view.widget with
    | .slider s => .slider (s.moveTo x)
    | widget => widget
  { e with param := param, view := { e.view with widget := widget } }

/-- The editor with other values of the vector it is bound to, and the sliders moved there. -/
def storeVector (xs : List Binary64) (e : Editor) : Editor :=
  let param := match e.param.control? with
    | some (.vector v) => e.param.withControl (.vector { v with val := xs })
    | _ => e.param
  let widget := match e.view.widget with
    | .accordion title expanded panel => .accordion title expanded (movePanel panel xs)
    | widget => widget
  { e with param := param, view := { e.view with widget := widget } }

/-- The editor bound to a flag of the given value, and the checkbox to match. -/
def storeFlag (b : Bool) (e : Editor) : Editor :=
  let widget := match e.view.widget with
    | .checkbox _ => .checkbox b
    | widget => widget
  { e with param := e.param.withControl (.flag b), view := { e.view with widget := widget } }

/-- The editor bound to a text of the given value, and the input to match. -/
def storeText (s : String) (e : Editor) : Editor :=
  let widget := match e.view.widget with
    | .textInput _ => .textInput s
    | widget => widget
  { e with param := e.param.withControl (.text s), view := { e.view with widget := widget } }

/-- The editor with its panel opened or closed. -/
def setExpanded (expanded : Bool) (e : Editor) : Editor :=
  let widget := match e.view.widget with
    | .accordion title _ panel => .accordion title expanded panel
    | widget => widget
  { e with expanded := expanded, view := { e.view with widget := widget } }

/-! ### Pushed values -/

/-- The complaint about a pushed value that does not fit. -/
def badPush {α : Type} (e : Editor) (val : Value) : Except Problem α :=
  .error (.unexpected (.push e.param.id val) (.editor e.param.kind e.param.name))

/-- The length of the vector the editor is bound to; zero if it is bound to none. -/
def vectorLength (e : Editor) : Nat :=
  match e.param.control? with
  | some (.vector v) => v.val.length
  | _ => 0

/-- The editor with a value pushed by the node. -/
def bindValue (val : Value) (e : Editor) : Except Problem Editor :=
  match e.kind with
  | .choice => .ok (e.storeChoice val)
  | .scalar =>
    match val.toReal? with
    | some x => .ok (e.storeScalar x)
    | none => e.badPush val
  | .vector =>
    match val.toReals? with
    | some xs => if xs.length = e.vectorLength then .ok (e.storeVector xs) else e.badPush val
    | none => e.badPush val
  | .flag =>
    match val with
    | .bool b => .ok (e.storeFlag b)
    | _ => e.badPush val
  | .text =>
    match val with
    | .text s => .ok (e.storeText s)
    | _ => e.badPush val
  | .group | .unresolved => e.badPush val

/-! ### Interactions -/

/-- The complaint about an interaction. -/
def refuse {α : Type} (e : Editor) (refusal : Refusal) : Except Problem α :=
  .error (.refused e.param.id refusal)

/-- An interaction with the editor of a choice: an option by its index or by its value. -/
def interactChoice (interaction : Interaction) (e : Editor) :
    Except Problem (Editor × Option Value) :=
  match e.param.control? with
  | some (.choice c) =>
    match interaction with
    | .pick index =>
      match c.options[index]? with
      | some val => .ok (e.storeChoice val, some val)
      | none => e.refuse (.noOption index)
    | .setValue val =>
      if c.options.any (·.same val) then .ok (e.storeChoice val, some val)
      else e.refuse (.notAnOption val)
    | other => e.refuse (.unsupported other)
  | _ => e.refuse .notChoice

/-- An interaction with the editor of a scalar: a number that is not outside the bounds. -/
def interactScalar (interaction : Interaction) (e : Editor) :
    Except Problem (Editor × Option Value) :=
  match interaction with
  | .setValue val =>
    match val.toReal? with
    | none => e.refuse (.notNumber val)
    | some x =>
      match e.param.control? with
      | some (.scalar s) =>
        if x.lt s.min || s.max.lt x then e.refuse (.outside x s.min s.max)
        else .ok (e.storeScalar x, some (Scalar.value { s with val := x }))
      | _ => e.refuse .notScalar
  | _ => e.refuse .sliderOnly

/-- The first number outside its bounds, counting indices from `index`. -/
def firstOutside? (index : Nat) : List Binary64 → List Binary64 → List Binary64 → Option Refusal
  | x :: xs, min :: mins, max :: maxs =>
    if x.lt min || max.lt x then some (.componentOutside index x min max)
    else firstOutside? (index + 1) xs mins maxs
  | _, _, _ => none

/-- Stores numbers in the vector of the editor if they are as many and not outside the bounds. -/
def tryVector (v : ScalarVector) (xs : List Binary64) (e : Editor) :
    Except Problem (Editor × Option Value) :=
  if xs.length ≠ v.val.length then e.refuse (.wrongLength v.val.length xs.length)
  else
    match firstOutside? 0 xs v.min v.max with
    | some refusal => e.refuse refusal
    | none => .ok (e.storeVector xs, some (ScalarVector.value { v with val := xs }))

/-- An interaction with the editor of a vector: all numbers at once, one of them, or the panel. -/
def interactVector (interaction : Interaction) (e : Editor) :
    Except Problem (Editor × Option Value) :=
  match e.param.control? with
  | some (.vector v) =>
    match interaction with
    | .toggle => .ok (e.setExpanded (!e.expanded), none)
    | .setComponent index x =>
      if index < v.val.length then e.tryVector v (v.val.set index x)
      else e.refuse (.noComponent index)
    | .setValue val =>
      match val.toReals? with
      | some xs => e.tryVector v xs
      | none => e.refuse (.notNumbers val)
    | other => e.refuse (.unsupported other)
  | _ => e.refuse .notVector

/-- Whether the editor is bound to a flag that is set. -/
def checked (e : Editor) : Bool :=
  match e.param.control? with
  | some (.flag b) => b
  | _ => false

/-- An interaction with the editor of a flag: a truth value, or the other one. -/
def interactFlag (interaction : Interaction) (e : Editor) :
    Except Problem (Editor × Option Value) :=
  let store (b : Bool) : Except Problem (Editor × Option Value) :=
    .ok (e.storeFlag b, some (.bool b))
  match interaction with
  | .toggle => store (!e.checked)
  | .setValue (.bool b) => store b
  | other => e.refuse (.checkboxOnly other)

/-- An interaction with the editor of a text: another text. -/
def interactText (interaction : Interaction) (e : Editor) :
    Except Problem (Editor × Option Value) :=
  match interaction with
  | .setValue (.text s) => .ok (e.storeText s, some (.text s))
  | _ => e.refuse .textOnly

/-- An interaction with the editor of a group: its panel. -/
def interactGroup (interaction : Interaction) (e : Editor) :
    Except Problem (Editor × Option Value) :=
  match interaction with
  | .toggle => .ok (e.setExpanded (!e.expanded), none)
  | _ => e.refuse .groupHasNoValue

/-- The editor after an interaction of the user, with the value to send to the node; no value if
the interaction changed only what is shown. -/
def interact (interaction : Interaction) (e : Editor) : Except Problem (Editor × Option Value) :=
  match e.kind with
  | .group => e.interactGroup interaction
  | .choice => e.interactChoice interaction
  | .scalar => e.interactScalar interaction
  | .vector => e.interactVector interaction
  | .flag => e.interactFlag interaction
  | .text => e.interactText interaction
  | .unresolved => e.refuse .unresolved

end LiveTuner.Editor
