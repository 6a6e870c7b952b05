import LiveTuner.Param.Basic

/-!
# Interactions

What a user can do to the editor of a parameter, and why an editor may refuse.

## Main definitions

* `Interaction` — what a user does to an editor
* `Interaction.inspected` — an interaction in messages
* `Refusal` — why an interaction is refused
-/

namespace LiveTuner

/-- What a user does to an editor. -/
inductive Interaction where
  /-- Replaces the value. -/
  | setValue (val : Value)
  /-- Sets the number at one index of a vector. -/
  | setComponent (index : Nat) (x : Binary64)
  /-- Picks the option at an index. -/
  | pick (index : Nat)
  /-- Opens or closes a panel, or flips a checkbox. -/
  | toggle
deriving DecidableEq, Repr

/-- An interaction in messages. -/
def Interaction.inspected : Interaction → String
  | setValue val => s!"SetValue({val.inspected})"
  | setComponent index x =>
    s!"SetComponent \x7b index: {index}, value: {x.text .inspected} \x7d"
  | pick index => s!"SelectOption({index})"
  | toggle => "Toggle"

/-- Why an editor refuses an interaction. -/
inductive Refusal where
  /-- The parameter is no choice. -/
  | notChoice
  /-- There is no option at the index. -/
  | noOption (index : Nat)
  /-- The value is not among the options. -/
  | notAnOption (val : Value)
  /-- The editor knows no such interaction. -/
  | unsupported (interaction : Interaction)
  /-- A slider takes a value and nothing else. -/
  | sliderOnly
  /-- A number is asked for. -/
  | notNumber (val : Value)
  /-- The parameter is no scalar. -/
  | notScalar
  /-- The number is not between the bounds. -/
  | outside (x min max : Binary64)
  /-- The parameter is no vector. -/
  | notVector
  /-- There is no number at the index. -/
  | noComponent (index : Nat)
  /-- A sequence of numbers is asked for. -/
  | notNumbers (val : Value)
  /-- The sequence has not the right length. -/
  | wrongLength (expected got : Nat)
  /-- The number at the index is not between its bounds. -/
  | componentOutside (index : Nat) (x min max : Binary64)
  /-- A text input takes a text and nothing else. -/
  | textOnly
  /-- A checkbox cannot apply the interaction. -/
  | checkboxOnly (interaction : Interaction)
  /-- The definition describes no parameter. -/
  | unresolved
  /-- A group has no value. -/
  | groupHasNoValue
deriving DecidableEq, Repr

/-- The wording of a refusal. -/
def Refusal.message : Refusal → String
  | .notChoice => "not an enum"
  | .noOption index => s!"no option {index}"
  | .notAnOption val => s!"{val.message} is not one of the options"
  | .unsupported interaction => s!"unsupported interaction {interaction.inspected}"
  | .sliderOnly => "slider only accepts a value"
  | .notNumber val => s!"expected a number, got {val.typeName}"
  | .notScalar => "not numeric"
  | .outside x min max => s!"{x.plainText} outside [{min.plainText}, {max.plainText}]"
  | .notVector => "not a vector"
  | .noComponent index => s!"no component {index}"
  | .notNumbers val => s!"expected a number sequence, got {val.typeName}"
  | .wrongLength expected got => s!"expected {expected} components, got {got}"
  | .componentOutside index x min max =>
    s!"component {index}: {x.plainText} outside [{min.plainText}, {max.plainText}]"
  | .textOnly => "text input only accepts a string"
  | .checkboxOnly interaction => s!"checkbox cannot apply {interaction.inspected}"
  | .unresolved => "parameter kind could not be resolved"
  | .groupHasNoValue => "a hyperparameter has no value of its own"

end LiveTuner
