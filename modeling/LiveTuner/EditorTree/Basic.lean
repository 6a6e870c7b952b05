import LiveTuner.Editor.Edit
import LiveTuner.Param.Nesting

/-!
# The editor tree

All editors live in one map by id. Which panel shows an editor is recorded beside it, as the id of
the group above it, so that a definition can be exchanged without making the editors around it anew.

Mounting a definition binds the editor of its id, or makes one if there is none of the right kind,
paints it and mounts what its panel asks for. Editors that the panel showed before and no longer
asks for are removed with everything below them.

## Main definitions

* `EditorTree` — the editors, the groups above them and the topmost ids
* `EditorTree.mount`, `EditorTree.remove` — showing a definition, and taking an editor away
* `EditorTree.load` — editors for a list of definitions
-/

namespace LiveTuner

/-- All editors of the selected node. -/
structure EditorTree where
  /-- The editors by the id of their parameter. -/
  editors : IdMap Editor
  /-- The group whose panel shows an id; none for the topmost. -/
  parents : IdMap ParamId
  /-- The topmost ids, in order. -/
  roots : List ParamId
  /-- How many editors have been made; each takes the next number as its serial number. -/
  serials : Nat

namespace EditorTree

/-- No editors, and none made so far. -/
def empty : EditorTree := ⟨∅, ∅, [], 0⟩

instance : Inhabited EditorTree := ⟨empty⟩

/-- The tree without editors; serial numbers go on. -/
def clear (t : EditorTree) : EditorTree := { empty with serials := t.serials }

/-- The editor of an id. -/
def get? (t : EditorTree) (id : ParamId) : Option Editor := t.editors[id]?

/-- Whether an id has an editor. -/
def contains (t : EditorTree) (id : ParamId) : Bool := t.editors.contains id

/-- The group whose panel shows an id. -/
def parent? (t : EditorTree) (id : ParamId) : Option ParamId := t.parents[id]?

/-- The number of editors. -/
def size (t : EditorTree) : Nat := t.editors.size

/-- The tree with the editor of an id in place of the one it had. -/
def setEditor (t : EditorTree) (id : ParamId) (e : Editor) : EditorTree :=
  { t with editors := t.editors.insert id e }

/-- The tree with another group above an id, or none. -/
def setParent (t : EditorTree) (id : ParamId) (parent : Option ParamId) : EditorTree :=
  match parent with
  | some parent => { t with parents := t.parents.insert id parent }
  | none => { t with parents := t.parents.erase id }

/-- The tree without the editor of an id. -/
def eraseEditor (t : EditorTree) (id : ParamId) : EditorTree :=
  { t with editors := t.editors.erase id, parents := t.parents.erase id }

/-! ### Removing -/

/-- Removes the editor of an id and those its panel shows, to a depth of `bound`. -/
def removeWithin : Nat → EditorTree → ParamId → EditorTree
  | 0, t, _ => t
  | bound + 1, t, id =>
    match t.get? id with
    | none => t
    | some e => e.view.childIds.foldl (removeWithin bound) (t.eraseEditor id)

/-- Removes the editor of an id and all below it. Every step removes an editor, so there are no more
steps than editors. -/
def remove (t : EditorTree) (id : ParamId) : EditorTree := removeWithin t.size t id

/-! ### Mounting -/

/-- The editor to show a mount: the present one, bound to the definition, if it is of the same kind;
else a new one. With it, the tree with the serial numbers that are left, and the ids that the
present editor shows. -/
def editorFor (t : EditorTree) (m : Mount) : Editor × EditorTree × List ParamId :=
  let fresh := Editor.create m.param m.labelled (t.serials + 1)
  let advanced := { t with serials := t.serials + 1 }
  match t.get? m.param.id with
  | none => (fresh, advanced, [])
  | some e =>
    if e.param.kind = m.param.kind then
      ({ e.bind m.param with labelled := m.labelled }, t, e.view.childIds)
    else (fresh, advanced, e.view.childIds)

/-- Mounts a definition below `parent` and what its panel asks for, to a depth of `bound`. -/
def mountWithin : Nat → Option ParamId → EditorTree → Mount → EditorTree
  | 0, _, t, _ => t
  | bound + 1, parent, t, m =>
    let id := m.param.id
    let (e, t, previous) := t.editorFor m
    let e := e.rebuild
    let t := (t.setEditor id e).setParent id parent
    let current := e.mounts.map (·.param.id)
    let t := e.mounts.foldl (mountWithin bound (some id)) t
    (previous.filter (!current.contains ·)).foldl remove t

/-- Mounts a definition below `parent`. What a panel asks for lies below the definition, so its
height bounds the depth. -/
def mount (t : EditorTree) (m : Mount) (parent : Option ParamId) : EditorTree :=
  mountWithin m.param.height parent t m

/-- Adds a topmost definition. -/
def addRoot (t : EditorTree) (p : Param) : EditorTree :=
  { t with roots := t.roots ++ [p.id] }.mount ⟨p, true⟩ none

/-- Editors for a list of definitions, all labelled, in place of those there were. -/
def load (t : EditorTree) (params : List Param) : EditorTree := params.foldl addRoot t.clear

end EditorTree

end LiveTuner
