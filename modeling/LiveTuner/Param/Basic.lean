import LiveTuner.Param.Definition
import LiveTuner.Param.Value

/-!
# Parameters

A parameter is either a control with a value of its own or a group of further parameters under
attributes. What kind of control it is was decided once, when its definition arrived.

## Main definitions

* `Scalar`, `ScalarVector`, `Choice` — the controls with more to them than a value
* `Control` — a parameter with a value of its own, or a definition that is none
* `Param` — a parameter
* `Kind` — the kind of a parameter
* `Param.value` — the value of a parameter as it travels
* `Param.setValue?` — the parameter with another value, if the value fits
-/

namespace LiveTuner

/-! ### Numbers with the type they came in -/

/-- The whole numbers of at most this size are all double-precision values. -/
def maxExactWhole : Nat := 0x20_0000_0000_0000

/-- Whether a number is sent as an integer: it came as one, and it is whole and not too large to
stand for one integer only. -/
def sentWhole (x : Binary64) (integral : Bool) : Bool :=
  integral && x.isWhole && x.size ≤ maxExactWhole * Binary64.quantaPerOne

/-- A whole number as an integer. -/
def wholeInt64 (x : Binary64) : Int64 := Int64.ofInt x.toInt

/-- A number with bounds. -/
structure Scalar where
  /-- The current value. -/
  val : Binary64
  /-- The lower bound. -/
  min : Binary64
  /-- The upper bound. -/
  max : Binary64
  /-- Whether the scale is logarithmic. -/
  logScale : Bool
  /-- The step between positions; none for a continuous scale. -/
  step : Option Binary64
  /-- Whether the node sent an integer. -/
  integral : Bool
deriving DecidableEq, Repr

/-- The value in the type the node sent it. -/
def Scalar.value (s : Scalar) : Value :=
  if sentWhole s.val s.integral then .int (wholeInt64 s.val) else .real s.val

/-- A sequence of numbers with bounds for each index. -/
structure ScalarVector where
  /-- The current values. -/
  val : List Binary64
  /-- The lower bound of each index. -/
  min : List Binary64
  /-- The upper bound of each index. -/
  max : List Binary64
  /-- Whether the scale is logarithmic. -/
  logScale : Bool
  /-- The step between positions; none for a continuous scale. -/
  step : Option Binary64
  /-- Whether the node sent integers. -/
  integral : Bool
deriving DecidableEq, Repr

namespace ScalarVector

/-- The values in the type the node sent them: integers only if all are sent whole. -/
def value (v : ScalarVector) : Value :=
  if v.val.all (sentWhole · v.integral) then .ints (v.val.map wholeInt64) else .reals v.val

/-- The number at an index, with its bounds. -/
def component? (v : ScalarVector) (index : Nat) : Option Scalar := do
  let val ← v.val[index]?
  let min ← v.min[index]?
  let max ← v.max[index]?
  pure ⟨val, min, max, v.logScale, v.step, v.integral⟩

/-- The numbers at the indices of the value. -/
def components (v : ScalarVector) : List Scalar :=
  (List.range v.val.length).filterMap v.component?

end ScalarVector

/-- A value out of a fixed list. -/
structure Choice where
  /-- The current value, usually one of the options. -/
  val : Value
  /-- The values to choose from, in the order they are shown. -/
  options : List Value
deriving DecidableEq, Repr

/-- The index of the current value among the options. -/
def Choice.selected (c : Choice) : Option Nat := c.options.findIdx? (·.same c.val)

/-! ### Definitions that describe no control -/

/-- Why a definition describes no control. -/
inductive Unresolvable where
  /-- An option is not a parameter value. -/
  | option (v : Json)
  /-- The value of a choice is not a parameter value. -/
  | chosen (v : Json)
  /-- A number is expected. -/
  | notNumber (v : Json)
  /-- A single number has an upper bound for each index. -/
  | maxPerIndex
  /-- A single number has a lower bound for each index. -/
  | minPerIndex
  /-- An item of a sequence of numbers is none. -/
  | component (v : Json)
  /-- The upper bounds are not as many as the numbers. -/
  | maxLength
  /-- The lower bounds are not as many as the numbers. -/
  | minLength
  /-- No control shows the value. -/
  | noControl (v : Json)

/-- The wording of a cause. -/
def Unresolvable.message : Unresolvable → String
  | .option v => s!"enum option {v.compact} is not a parameter value"
  | .chosen v => s!"enum value {v.compact} is not a parameter value"
  | .notNumber v => s!"numeric value expected, got {v.compact}"
  | .maxPerIndex => "scalar parameter with per-index max"
  | .minPerIndex => "scalar parameter with per-index min"
  | .component v => s!"vector element {v.compact} is not a number"
  | .maxLength => "max length differs from value length"
  | .minLength => "min length differs from value length"
  | .noControl v => s!"no editor for value {v.compact}"

/-- The wording of the complaint that a definition describes no control. -/
def unresolvableMessage (cause : Unresolvable) (definition : Definition) : String :=
  s!"Unresolvable parameter kind for {definition.id.text} '{definition.name}' "
    ++ s!"({cause.message}): {definition.text}"

/-! ### Parameters -/

/-- A parameter that is no group. -/
inductive Control where
  /-- A value out of a list. -/
  | choice (c : Choice)
  /-- A number with bounds. -/
  | scalar (s : Scalar)
  /-- A sequence of numbers with bounds. -/
  | vector (v : ScalarVector)
  /-- A truth value. -/
  | flag (b : Bool)
  /-- A text. -/
  | text (s : String)
  /-- A definition that describes no control; kept so that the id stays known. -/
  | unresolved (cause : Unresolvable) (definition : Definition)

/-- A parameter. -/
inductive Param where
  /-- A parameter with a value of its own. -/
  | leaf (id : ParamId) (name : String) (control : Control)
  /-- Parameters under attributes, in the order the node sent them, and the attributes that are not
  shown. -/
  | group (id : ParamId) (name : String) (params : List (String × Param)) (hidden : List String)

/-- The kind of a parameter. -/
inductive Kind where
  /-- A group. -/
  | group
  /-- A value out of a list. -/
  | choice
  /-- A number. -/
  | scalar
  /-- A sequence of numbers. -/
  | vector
  /-- A truth value. -/
  | flag
  /-- A text. -/
  | text
  /-- A definition that describes no control. -/
  | unresolved
deriving DecidableEq, Repr

/-- The name of a kind in messages. -/
def Kind.label : Kind → String
  | .group => "hyper"
  | .choice => "enum"
  | .scalar => "numeric"
  | .vector => "vector"
  | .flag => "bool"
  | .text => "string"
  | .unresolved => "unresolved"

namespace Control

/-- The kind of a control. -/
def kind : Control → Kind
  | choice _ => .choice
  | scalar _ => .scalar
  | vector _ => .vector
  | flag _ => .flag
  | text _ => .text
  | unresolved .. => .unresolved

/-- The value of a control as it travels. -/
def value : Control → Value
  | choice c => c.val
  | scalar s => s.value
  | vector v => v.value
  | flag b => .bool b
  | text s => .text s
  | unresolved .. => .null

/-- The control with another value, if the value fits: numbers take any number, sequences one of
the same length, choices anything. -/
def setValue? (val : Value) : Control → Option Control
  | choice c => some (choice { c with val := val })
  | scalar s => val.toReal?.map fun x => scalar { s with val := x }
  | vector v =>
    match val.toReals? with
    | some xs => if xs.length = v.val.length then some (vector { v with val := xs }) else none
    | none => none
  | flag _ =>
    match val with
    | .bool b => some (flag b)
    | _ => none
  | text _ =>
    match val with
    | .text s => some (text s)
    | _ => none
  | unresolved .. => none

end Control

namespace Param

/-- The id. -/
def id : Param → ParamId
  | leaf id _ _ => id
  | group id _ _ _ => id

/-- The name to show. -/
def name : Param → String
  | leaf _ name _ => name
  | group _ name _ _ => name

/-- The kind. -/
def kind : Param → Kind
  | leaf _ _ control => control.kind
  | group .. => .group

/-- The value as it travels; a group has none. -/
def value : Param → Value
  | leaf _ _ control => control.value
  | group .. => .null

/-- The control, if the parameter is no group. -/
def control? : Param → Option Control
  | leaf _ _ control => some control
  | group .. => none

/-- The parameter with another control in place of what it was. -/
def withControl (p : Param) (control : Control) : Param := leaf p.id p.name control

/-- The parameter with another value, if the value fits. A group takes no value. -/
def setValue? (val : Value) : Param → Option Param
  | leaf id name control => (control.setValue? val).map (leaf id name)
  | group .. => none

/-- The parameters of a group by attribute, in order; none for other parameters. -/
def members : Param → List (String × Param)
  | leaf .. => []
  | group _ _ params _ => params

/-- The parameters of a group, in order; none for other parameters. -/
def children (p : Param) : List Param := p.members.map Prod.snd

/-- The parameters of a group that are shown, in order; none for other parameters. -/
def visible : Param → List Param
  | leaf .. => []
  | group _ _ params hidden =>
    (params.filter fun (key, _) => !hidden.contains key).map Prod.snd

end Param

end LiveTuner
