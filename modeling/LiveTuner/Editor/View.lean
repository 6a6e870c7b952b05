import LiveTuner.Param.Basic
import LiveTuner.Readout

/-!
# Views

A view is what an editor shows: a label and a widget. Panels hold sliders of their own and refer to
other editors by id, so that an editor can be painted anew without the ones around it.

## Main definitions

* `Slider`, `Widget`, `View` — what an editor shows
* `View.childIds` — the editors that a view refers to
-/

namespace LiveTuner

/-- A slider. -/
structure Slider where
  /-- The lower end of the scale. -/
  min : Binary64
  /-- The upper end of the scale. -/
  max : Binary64
  /-- Whether the scale is logarithmic. -/
  logScale : Bool
  /-- The step between positions; none for a continuous scale. -/
  step : Option Binary64
  /-- The position. -/
  value : Binary64
  /-- The number shown beside the slider. -/
  readout : String
deriving DecidableEq, Repr

namespace Slider

/-- The slider of a scalar. -/
def ofScalar (s : Scalar) : Slider :=
  ⟨s.min, s.max, s.logScale, s.step, s.val, LiveTuner.readout s.val⟩

/-- The slider at another position. -/
def moveTo (x : Binary64) (s : Slider) : Slider :=
  { s with value := x, readout := LiveTuner.readout x }

end Slider

/-- An item of a panel. -/
inductive PanelItem where
  /-- The editor of another parameter. -/
  | editor (id : ParamId)
  /-- A slider of the panel itself. -/
  | slider (s : Slider)
deriving DecidableEq, Repr

/-- What an editor shows beside its label. -/
inductive Widget where
  /-- Nothing. -/
  | empty
  /-- A slider. -/
  | slider (s : Slider)
  /-- A checkbox. -/
  | checkbox (checked : Bool)
  /-- Options, of which one may be selected. -/
  | select (options : List String) (selected : Option Nat)
  /-- A text to edit. -/
  | textInput (value : String)
  /-- A panel under a header that opens and closes it. -/
  | accordion (title : String) (expanded : Bool) (panel : List PanelItem)
  /-- A complaint in place of a widget. -/
  | placeholder (reason : String)
deriving DecidableEq, Repr

/-- What an editor shows. -/
structure View where
  /-- The label, if it is shown. -/
  label : Option String
  /-- The widget. -/
  widget : Widget
deriving DecidableEq, Repr

/-- The view of an editor that has not been painted. -/
def View.blank : View := ⟨none, .empty⟩

/-- The editors that a panel refers to, in order. -/
def panelIds (panel : List PanelItem) : List ParamId :=
  panel.filterMap fun item =>
    match item with
    | .editor id => some id
    | .slider _ => none

/-- The editors that the view refers to, in order. -/
def View.childIds (v : View) : List ParamId :=
  match v.widget with
  | .accordion _ _ panel => panelIds panel
  | _ => []

/-- A panel whose own sliders stand at the given positions; sliders past the last position stay. -/
def movePanel : List PanelItem → List Binary64 → List PanelItem
  | .slider s :: rest, x :: xs => .slider (s.moveTo x) :: movePanel rest xs
  | .editor id :: rest, xs => .editor id :: movePanel rest xs
  | rest, [] => rest
  | [], _ => []

end LiveTuner
