import LiveTuner.Param.Basic

/-!
# Resolution

A definition says what kind of parameter it describes only by the fields it has. The rules apply in
this order, and the first that applies decides:

1. a definition with `params` is a group;
2. one with `oneof` is a choice;
3. one with `max` is a vector if its value is a sequence, and a scalar otherwise;
4. a truth value makes a flag;
5. a text makes a text.

Every other definition describes no parameter. Within a group such a definition costs nothing but
itself: it stays as an unresolved parameter.

## Main definitions

* `Definition.control` — the control that a definition without `params` describes
* `Definition.resolve` — the parameter a definition describes
* `Definition.resolveLeniently` — the same, unresolved where there is none
-/

namespace LiveTuner

namespace Definition

/-- The number of each index that a bound sets for a sequence of the given length. -/
def broadcast? (length : Nat) : Bound → Option (List Binary64)
  | .uniform x => some (List.replicate length x)
  | .perIndex xs => if xs.length = length then some xs else none

/-- The choice that the definition describes with the given options. -/
def choice (d : Definition) (options : List Json) : Except Unresolvable Control := do
  let options ← options.mapM fun v =>
    match Value.ofJson? v with
    | some value => pure value
    | none => .error (.option v)
  match Value.ofJson? d.val with
  | some val => pure (.choice ⟨val, options⟩)
  | none => .error (.chosen d.val)

/-- The number that a value stands for, and whether it counts as an integer; truth values count as
the integers zero and one. -/
def scalarValue (v : Json) : Except Unresolvable (Binary64 × Bool) :=
  match v with
  | .bool b => .ok (.ofInt (if b then 1 else 0), true)
  | v =>
    match v.toReal? with
    | some x => .ok (x, v.isInteger)
    | none => .error (.notNumber v)

/-- The scalar that the definition describes with the given upper bound. -/
def scalar (d : Definition) (max : Bound) : Except Unresolvable Control := do
  let (val, integral) ← scalarValue d.val
  let max ← match max with
    | .uniform x => pure x
    | .perIndex _ => .error .maxPerIndex
  let min ← match d.min with
    | none => pure .zero
    | some (.uniform x) => pure x
    | some (.perIndex _) => .error .minPerIndex
  pure (.scalar ⟨val, min, max, d.logScale.getD false, d.step, integral⟩)

/-- The vector that the definition describes with the given value and upper bound. -/
def vector (d : Definition) (items : List Json) (max : Bound) : Except Unresolvable Control := do
  let val ← items.mapM fun v =>
    match v.toReal? with
    | some x => pure x
    | none => .error (.component v)
  let max ← match broadcast? val.length max with
    | some xs => pure xs
    | none => .error .maxLength
  let min ← match d.min with
    | none => pure (List.replicate val.length .zero)
    | some bound =>
      match broadcast? val.length bound with
      | some xs => pure xs
      | none => .error .minLength
  pure (.vector ⟨val, min, max, d.logScale.getD false, d.step, items.all Json.isInteger⟩)

/-- The control that a definition without `params` describes. -/
def control (d : Definition) : Except Unresolvable Control :=
  match d.oneof, d.max with
  | some options, _ => d.choice options
  | none, some max =>
    match d.val with
    | .array items => d.vector items max
    | _ => d.scalar max
  | none, none =>
    match d.val with
    | .bool b => .ok (.flag b)
    | .string s => .ok (.text s)
    | v => .error (.noControl v)

mutual

/-- The parameter a definition describes, unresolved if it describes none. -/
def resolveLeniently (d : Definition) : Param :=
  match d with
  | ⟨id, name, val, min, max, logScale, step, oneof, params, hidden⟩ =>
    match params with
    | some members => .group id name (resolveMembers members) (hidden.getD [])
    | none =>
      let d := ⟨id, name, val, min, max, logScale, step, oneof, none, hidden⟩
      match control d with
      | .ok control => .leaf id name control
      | .error cause => .leaf id name (.unresolved cause d)

/-- The parameters that definitions under attributes describe. -/
def resolveMembers : List (String × Definition) → List (String × Param)
  | [] => []
  | (key, d) :: rest => (key, resolveLeniently d) :: resolveMembers rest

end

/-- The parameter a definition describes, or why it describes none. Within a group the definitions
that describe none stay as unresolved parameters. -/
def resolve (d : Definition) : Except Unresolvable Param :=
  match d.params with
  | some members => .ok (.group d.id d.name (resolveMembers members) (d.hidden.getD []))
  | none => d.control.map (.leaf d.id d.name)

end Definition

end LiveTuner
