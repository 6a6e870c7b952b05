import LiveTuner.Param.Basic

/-!
# Nested parameters

A group holds copies of the parameters below it. This file walks those copies: it lists the ids
below a parameter, asks whether an id is among them, and exchanges the copy of one parameter.

The walks go depth first and meet a group before what is below it.

## Main definitions

* `Param.descendantIds` — the ids below a parameter
* `Param.hasDescendant` — whether an id is below a parameter
* `Param.replaceDescendant?` — the parameter with the first copy below it exchanged
-/

namespace LiveTuner.Param

mutual

/-- The ids below a parameter, depth first. -/
def descendantIds : Param → List ParamId
  | leaf .. => []
  | group _ _ params _ => idsAmong params

/-- The ids of parameters and of those below them, depth first. -/
def idsAmong : List (String × Param) → List ParamId
  | [] => []
  | (_, p) :: rest => p.id :: (descendantIds p ++ idsAmong rest)

end

/-- The ids of a parameter and of those below it, depth first. -/
def ids (p : Param) : List ParamId := p.id :: p.descendantIds

mutual

/-- Whether an id is below a parameter. -/
def hasDescendant (id : ParamId) : Param → Bool
  | leaf .. => false
  | group _ _ params _ => occursAmong id params

/-- Whether an id is that of one of the parameters or of one below them. -/
def occursAmong (id : ParamId) : List (String × Param) → Bool
  | [] => false
  | (_, p) :: rest => p.id == id || hasDescendant id p || occursAmong id rest

end

mutual

/-- The parameter in which the first parameter below it with the id of `replacement` is exchanged
for it; none if there is no such parameter. -/
def replaceDescendant? (p replacement : Param) : Option Param :=
  match p with
  | leaf .. => none
  | group id name params hidden =>
    (replaceAmong? params replacement).map fun params => group id name params hidden

/-- The parameters of which the first with the id of `replacement`, at any depth, is exchanged. -/
def replaceAmong? (params : List (String × Param)) (replacement : Param) :
    Option (List (String × Param)) :=
  match params with
  | [] => none
  | (key, p) :: rest =>
    if p.id = replacement.id then some ((key, replacement) :: rest)
    else
      match replaceDescendant? p replacement with
      | some p => some ((key, p) :: rest)
      | none => (replaceAmong? rest replacement).map ((key, p) :: ·)

end

/-- The parameter with the copy of `replacement` below it exchanged, if it holds one. -/
def replaceDescendant (p replacement : Param) : Param :=
  (p.replaceDescendant? replacement).getD p

mutual

/-- The number of parameters from this one to the deepest below it. -/
def height : Param → Nat
  | leaf .. => 1
  | group _ _ params _ => heightAmong params + 1

/-- The greatest height among parameters. -/
def heightAmong : List (String × Param) → Nat
  | [] => 0
  | (_, p) :: rest => max (height p) (heightAmong rest)

end

end LiveTuner.Param
