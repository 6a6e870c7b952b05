import LiveTuner.EditorTree.Basic

/-!
# Changes to the editor tree

A redefinition, a pushed value and an interaction each reach one editor. Afterwards the groups above
it take over its definition into the copies they hold, so that painting one of them anew later does
not bring an old value back.

A definition without an editor of its own (it is hidden, or it is an optional value whose parameters
stand in its place) is exchanged within the deepest group that holds it.

The walk up from an editor follows the recorded groups. `Walk` keeps apart a walk that ends and one
that would go round for ever.

## Main definitions

* `EditorTree.ancestors` — the groups above an id, the nearest first
* `EditorTree.nearestHost` — the deepest editor that holds an id
* `EditorTree.reconcile` — a redefinition
* `EditorTree.bindValue` — a pushed value
* `EditorTree.interact` — an interaction, with the value to send to the node
-/

namespace LiveTuner

/-- The outcome of following links: none if they lead round for ever. -/
abbrev Walk (α : Type) := Option α

namespace EditorTree

/-! ### Walking up -/

/-- The groups above an id, the nearest first, if there are fewer than `bound`. -/
def ancestorsWithin (t : EditorTree) : Nat → ParamId → Walk (List ParamId)
  | 0, _ => none
  | bound + 1, id =>
    match t.parent? id with
    | none => some []
    | some parent => (t.ancestorsWithin bound parent).map (parent :: ·)

/-- The groups above an id, the nearest first. A walk of more steps than there are links meets a
link again and never ends. -/
def ancestors (t : EditorTree) (id : ParamId) : Walk (List ParamId) :=
  t.ancestorsWithin (t.parents.size + 1) id

/-- How many groups are above an id. -/
def depth (t : EditorTree) (id : ParamId) : Walk Nat := (t.ancestors id).map List.length

/-- The editor bound to a definition in which the copy of `current`, if any, is exchanged. -/
def patchEditor (current : Param) (e : Editor) : Editor :=
  match e.param.replaceDescendant? current with
  | some bound => e.bind bound
  | none => e

/-- Exchanges the copy of `current` in the definition that an editor is bound to. -/
def patch (current : Param) (t : EditorTree) (ancestor : ParamId) : EditorTree :=
  match t.get? ancestor with
  | some e => t.setEditor ancestor (patchEditor current e)
  | none => t

/-- Takes the definition of an editor over into the groups above it. -/
def syncAncestors (t : EditorTree) (id : ParamId) : Walk EditorTree :=
  match t.get? id with
  | none => some t
  | some e => (t.ancestors id).map fun chain => chain.foldl (patch e.param) t

/-! ### Finding a host -/

/-- The editors whose definition holds an id below it, out of `order`. -/
def hosts (t : EditorTree) (id : ParamId) (order : List ParamId) : List ParamId :=
  order.filter fun host =>
    match t.get? host with
    | some e => e.param.hasDescendant id
    | none => false

/-- Of two candidates with their depths, the deeper; of equals, the later. -/
def deeper (best : Option (ParamId × Nat)) (candidate : ParamId × Nat) : Option (ParamId × Nat) :=
  match best with
  | some (host, depth) => if candidate.2 < depth then some (host, depth) else some candidate
  | none => some candidate

/-- The deepest editor that holds an id, the last one of the deepest in `order`. -/
def nearestHostIn (t : EditorTree) (id : ParamId) (order : List ParamId) :
    Walk (Option ParamId) := do
  let candidates ← (t.hosts id order).mapM fun host => (t.depth host).map (host, ·)
  pure ((candidates.foldl deeper none).map Prod.fst)

/-- The deepest editor that holds an id. -/
def nearestHost (t : EditorTree) (id : ParamId) : Walk (Option ParamId) :=
  t.nearestHostIn id t.editors.keys

/-! ### Changes -/

/-- Mounts a definition in place of the editor of its id and takes it over into the groups above. -/
def remount (t : EditorTree) (p : Param) (labelled : Bool) : Walk EditorTree :=
  (t.mount ⟨p, labelled⟩ (t.parent? p.id)).syncAncestors p.id

/-- Exchanges a definition: the editor of its id is bound to it and painted anew; without one, the
deepest group that holds the id is. -/
def reconcile (t : EditorTree) (p : Param) : Walk (Except Problem EditorTree) :=
  match t.get? p.id with
  | some e => (t.remount p e.labelled).map .ok
  | none => do
    match ← t.nearestHost p.id with
    | none => pure (.error (.unknownParameter p.id))
    | some host =>
      match t.get? host with
      | none => pure (.error (.unknownParameter p.id))
      | some e => (t.remount (e.param.replaceDescendant p) e.labelled).map .ok

/-- Gives the editor of an id a value pushed by the node. -/
def bindValue (t : EditorTree) (id : ParamId) (val : Value) : Walk (Except Problem EditorTree) :=
  match t.get? id with
  | none => pure (.error (.unknownParameter id))
  | some e =>
    match e.bindValue val with
    | .error problem => pure (.error problem)
    | .ok e => ((t.setEditor id e).syncAncestors id).map .ok

/-- Applies an interaction to the editor of an id; with the tree, the value to send to the node. An
interaction that gives no value changes nothing in the groups above. -/
def interact (t : EditorTree) (id : ParamId) (interaction : Interaction) :
    Walk (Except Problem (EditorTree × Option Value)) :=
  match t.get? id with
  | none => pure (.error (.unknownParameter id))
  | some e =>
    match e.interact interaction with
    | .error problem => pure (.error problem)
    | .ok (e, none) => pure (.ok (t.setEditor id e, none))
    | .ok (e, some val) =>
      ((t.setEditor id e).syncAncestors id).map fun t => .ok (t, some val)

end EditorTree

end LiveTuner
