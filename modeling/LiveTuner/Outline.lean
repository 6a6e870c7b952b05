import LiveTuner.EditorTree.Change

/-!
# The outline

Editors are shown on a terminal as an outline: a line for each widget, with its id, and under an
open panel what it holds, indented.

## Main definitions

* `Widget.line` — a widget on a line
* `EditorTree.outline` — the lines of all editors, from the topmost down
-/

namespace LiveTuner

/-- A slider: its readout, its scale and whether that is logarithmic. -/
def Slider.line (s : Slider) : String :=
  let scale := if s.logScale then " log" else ""
  s!"{s.readout} [{LiveTuner.readout s.min} .. {LiveTuner.readout s.max}{scale}]"

/-- Options, the selected one in brackets; `index` is the index of the first. -/
def optionTexts (selected : Option Nat) (index : Nat) : List String → List String
  | [] => []
  | option :: rest =>
    (if selected = some index then s!"[{option}]" else option)
      :: optionTexts selected (index + 1) rest

/-- What a view shows, on a line: the label and the widget, or the header of a panel. -/
def View.line (v : View) : String :=
  let label := match v.label with
    | some label => label ++ ": "
    | none => ""
  match v.widget with
  | .empty => label ++ "<empty>"
  | .slider s => label ++ s.line
  | .checkbox checked => label ++ (if checked then "[x]" else "[ ]")
  | .select options selected => label ++ " | ".intercalate (optionTexts selected 0 options)
  | .textInput value => label ++ quoted value
  | .accordion title expanded _ =>
    let arrow := if expanded then "v" else ">"
    if title = "" then arrow else s!"{arrow} {title}"
  | .placeholder reason => label ++ s!"<unresolved: {reason}>"

/-- The blanks at the start of a line of the given level. -/
def indentation (level : Nat) : String := String.ofList (List.replicate (2 * level) ' ')

/-- The items of an open panel: the lines of its own sliders and those of other editors, which
`lines` gives. Sliders are numbered by their place in the panel. -/
def panelLines (lines : ParamId → Walk (List String)) (level : Nat) :
    Nat → List PanelItem → Walk (List String)
  | _, [] => some []
  | index, item :: rest => do
    let here ← match item with
      | .editor id => lines id
      | .slider s => some [s!"{indentation level}[{index}] {s.line}"]
    let later ← panelLines lines level (index + 1) rest
    pure (here ++ later)

namespace EditorTree

/-- The lines of the editor of an id and of what its panel shows, if panels are nested less deeply
than `bound`. -/
def linesWithin (t : EditorTree) : Nat → Nat → ParamId → Walk (List String)
  | 0, _, _ => none
  | bound + 1, level, id =>
    match t.get? id with
    | none => some [s!"{indentation level}<missing editor {id.text}>"]
    | some e => do
      let header := s!"{indentation level}{e.view.line}  ({id.text})"
      match e.view.widget with
      | .accordion _ true panel =>
        let below ← panelLines (t.linesWithin bound (level + 1)) (level + 1) 0 panel
        pure (header :: below)
      | _ => pure [header]

/-- The lines of the topmost editors and of what their open panels show. Panels nested more deeply
than there are editors show an editor within itself and never end. -/
def outlineLines (t : EditorTree) : Walk (List String) :=
  (t.roots.mapM (t.linesWithin (t.size + 1) 0)).map List.flatten

/-- The outline as a text in which every line ends with a line break. -/
def outline (t : EditorTree) : Walk String :=
  t.outlineLines.map fun lines => String.join (lines.map (· ++ "\n"))

end EditorTree

end LiveTuner
