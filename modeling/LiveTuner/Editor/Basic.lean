import LiveTuner.Editor.View

/-!
# Editors

Every parameter that is shown has an editor. An editor keeps its kind and its serial number for
life; it can be bound to another definition of its parameter and then paints itself anew. The
editor of a group does not hold the editors in its panel: it says which definitions it wants
mounted there.

A panel lists the parameters of its group that are shown. One shape of group is an optional value:
its shown parameters are exactly a flag named `.enabled` and a value named `.enabled_value`. The
flag comes first; of a value that is a group itself the parameters take its place, any other value
stands without a label.

## Main definitions

* `Mount` — a definition that a group wants in its panel
* `optionalPair?`, `panelMounts` — what a group wants in its panel
* `Editor` — an editor
* `Editor.create`, `Editor.bind`, `Editor.rebuild` — its life
-/

namespace LiveTuner

/-- A definition that a group wants in its panel. -/
structure Mount where
  /-- The parameter. -/
  param : Param
  /-- Whether its editor shows its label. -/
  labelled : Bool

/-- The name of the flag of an optional value. -/
def enabledName : String := ".enabled"

/-- The name of the value of an optional value. -/
def enabledValueName : String := ".enabled_value"

/-- The flag and the value, if the parameters that a group shows are an optional value. -/
def optionalPair? : List Param → Option (Param × Param)
  | [flag, value] =>
    if flag.name = enabledName ∧ value.name = enabledValueName then some (flag, value) else none
  | _ => none

/-- What a group wants in its panel when it shows these parameters. -/
def mountsOfVisible (visible : List Param) : List Mount :=
  match optionalPair? visible with
  | none => visible.map (⟨·, true⟩)
  | some (flag, value) =>
    ⟨flag, true⟩ ::
      match value with
      | .group .. => value.visible.map (⟨·, true⟩)
      | .leaf .. => [⟨value, false⟩]

/-- What a parameter wants in its panel: nothing unless it is a group. -/
def panelMounts (p : Param) : List Mount :=
  match p with
  | .group .. => mountsOfVisible p.visible
  | .leaf .. => []

/-- The editor of a parameter. -/
structure Editor where
  /-- The kind of parameter it edits, fixed when it is made. -/
  kind : Kind
  /-- The serial number, fixed when it is made. -/
  serial : Nat
  /-- The parameter it is bound to. -/
  param : Param
  /-- Whether it shows its label. -/
  labelled : Bool
  /-- Whether its panel is open, if it has one. -/
  expanded : Bool
  /-- What it shows. -/
  view : View

namespace Editor

/-- The editor of a parameter: closed, and not painted yet. -/
def create (param : Param) (labelled : Bool) (serial : Nat) : Editor :=
  ⟨param.kind, serial, param, labelled, false, .blank⟩

/-- Whether editors of the kind have a panel. -/
def hasPanel : Kind → Bool
  | .group | .vector => true
  | _ => false

/-- Whether the panel is open; none for an editor without a panel. -/
def expanded? (e : Editor) : Option Bool := if hasPanel e.kind then some e.expanded else none

/-- The editor bound to another definition. What it shows does not change yet. -/
def bind (param : Param) (e : Editor) : Editor := { e with param := param }

/-- The label that the editor shows when it is painted. A panel has a title instead. -/
def label (e : Editor) : Option String :=
  if hasPanel e.kind then none else if e.labelled then some e.param.name else none

/-- The title of the panel. -/
def title (e : Editor) : String := if e.labelled then e.param.name else ""

/-- The widget of a choice. -/
def selectOf (c : Choice) : Widget := .select (c.options.map Value.message) c.selected

/-- The items of the panel of a vector. -/
def vectorPanel (v : ScalarVector) : List PanelItem :=
  v.components.map fun s => .slider (.ofScalar s)

/-- The items of the panel of a group. -/
def groupPanel (mounts : List Mount) : List PanelItem :=
  mounts.map fun m => .editor m.param.id

/-- The complaint of a placeholder. -/
def placeholderReason (p : Param) : String :=
  match p.control? with
  | some (.unresolved cause definition) => unresolvableMessage cause definition
  | _ => s!"unexpected {p.kind.label} parameter"

/-- The widget that the editor paints. An editor bound to a parameter of another kind paints what
it can. -/
def widget (e : Editor) : Widget :=
  match e.kind with
  | .group =>
    match e.param with
    | .group .. => .accordion e.title e.expanded (groupPanel (panelMounts e.param))
    | .leaf .. => .empty
  | .choice =>
    match e.param.control? with
    | some (.choice c) => selectOf c
    | _ => .empty
  | .scalar =>
    match e.param.control? with
    | some (.scalar s) => .slider (.ofScalar s)
    | _ => .empty
  | .vector =>
    match e.param.control? with
    | some (.vector v) => .accordion e.title e.expanded (vectorPanel v)
    | _ => .empty
  | .flag =>
    match e.param.control? with
    | some (.flag b) => .checkbox b
    | _ => .checkbox false
  | .text =>
    match e.param.control? with
    | some (.text s) => .textInput s
    | _ => .textInput ""
  | .unresolved => .placeholder (placeholderReason e.param)

/-- What the editor wants in its panel. -/
def mounts (e : Editor) : List Mount :=
  match e.kind with
  | .group => panelMounts e.param
  | _ => []

/-- The editor painted from what it is bound to. -/
def rebuild (e : Editor) : Editor := { e with view := ⟨e.label, e.widget⟩ }

end Editor

end LiveTuner
