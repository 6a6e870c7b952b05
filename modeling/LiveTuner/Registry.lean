import LiveTuner.Param.Nesting

/-!
# The registry

The registry knows the definition of every id of the selected node, at whatever depth. The entry of
a group holds copies of everything below it, so a change to one entry is also made in the copies
that other entries hold.

## Main definitions

* `Registry` — the definitions by id
* `Registry.flatten` — takes definitions in, with everything below them
* `Registry.setValue?` — changes the value of an id, if the value fits
-/

namespace LiveTuner

/-- The definitions of a node by id. -/
structure Registry where
  /-- The entry of each id. -/
  entries : IdMap Param

namespace Registry

/-- No definitions. -/
def empty : Registry := ⟨∅⟩

instance : Inhabited Registry := ⟨empty⟩

/-- The definition of an id. -/
def get? (r : Registry) (id : ParamId) : Option Param := r.entries[id]?

/-- The number of ids. -/
def size (r : Registry) : Nat := r.entries.size

/-- Whether there are no definitions. -/
def isEmpty (r : Registry) : Bool := r.entries.isEmpty

/-- The registry without the entry of an id. -/
def erase (r : Registry) (id : ParamId) : Registry := ⟨r.entries.erase id⟩

/-- The registry with a definition as the entry of its id. -/
def insert (r : Registry) (p : Param) : Registry := ⟨r.entries.insert p.id p⟩

mutual

/-- Enters a definition and everything below it, what is below first. -/
def insertTree (r : Registry) (p : Param) : Registry :=
  match p with
  | .leaf .. => r.insert p
  | .group id name params hidden => (r.insertAll params).insert (.group id name params hidden)

/-- Enters definitions under attributes, each with everything below it, in order. -/
def insertAll (r : Registry) (params : List (String × Param)) : Registry :=
  match params with
  | [] => r
  | (_, p) :: rest => (r.insertTree p).insertAll rest

end

/-- Exchanges the copy of a definition in every other entry that holds one. -/
def patchCopies (r : Registry) (p : Param) : Registry :=
  ⟨r.entries.map fun id entry => if id = p.id then entry else entry.replaceDescendant p⟩

/-- Removes the entries of ids that the present definition of an id holds and `p` no longer does. -/
def dropStale (r : Registry) (p : Param) : Registry :=
  match r.get? p.id with
  | none => r
  | some previous =>
    let kept := p.descendantIds
    (previous.descendantIds.filter (!kept.contains ·)).foldl erase r

/-- Takes one definition in. -/
def flattenOne (r : Registry) (p : Param) : Registry :=
  ((r.dropStale p).insertTree p).patchCopies p

/-- Takes definitions in, in order: their entries and those of everything below them are replaced,
and ids that no longer belong to them are dropped. -/
def flatten (r : Registry) (params : List Param) : Registry := params.foldl flattenOne r

/-- Changes the value of an id, here and in the copies other entries hold; none if the id is unknown
or the value does not fit. -/
def setValue? (r : Registry) (id : ParamId) (val : Value) : Option Registry := do
  let p ← r.get? id
  let p ← p.setValue? val
  pure ((r.insert p).patchCopies p)

end Registry

end LiveTuner
