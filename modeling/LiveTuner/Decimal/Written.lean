import LiveTuner.Decimal.Shortest

/-!
# Written numbers

How a double-precision value is spelled. A `NumberStyle` records the decisions of one written
form: which orders are spelled without an exponent, whether a whole number keeps `.0`, whether a
positive exponent has a plus sign, and how ties are broken. The digits are those of
`Decimal.shortest`, except for the two forms with a given number of places.

## Main definitions

* `NumberStyle.plain` — never an exponent and no `.0`: values in messages
* `NumberStyle.inspected` — always a fraction or an exponent: values inside described interactions
* `NumberStyle.pointed` — never an exponent, always a point: values in complaints
* `NumberStyle.data` — the spelling of numbers in data files
* `Binary64.text` — a value in a style
* `Binary64.fixed`, `Binary64.scientific` — a value rounded to a number of places or digits
-/

namespace LiveTuner

/-- The decisions of one written form of numbers. -/
structure NumberStyle where
  /-- The least and the greatest order spelled without an exponent, none for every order. -/
  positional : Option (Int × Int)
  /-- Whether a whole number spelled without an exponent keeps `.0`. -/
  keepsPoint : Bool
  /-- Whether an exponent that is not negative has a plus sign. -/
  plusSign : Bool
  /-- Which of two equally near decimals is written. -/
  tie : Tie
deriving Repr

namespace NumberStyle

/-- Values in messages have no exponent, whatever their order, and no superfluous point. -/
def plain : NumberStyle := ⟨none, false, false, .up⟩

/-- Values inside a described interaction always show that they are not integers; an exponent
starts at `1e16` and below `0.0001`. -/
def inspected : NumberStyle := ⟨some (-4, 15), true, false, .up⟩

/-- Values in complaints about packed data have no exponent but always a point. -/
def pointed : NumberStyle := ⟨none, true, false, .up⟩

/-- Values in data keep `.0`; an exponent has a sign and starts at `1e+16` and below `0.00001`. -/
def data : NumberStyle := ⟨some (-5, 15), true, true, .even⟩

end NumberStyle

namespace Decimal

/-- The digits with the point in its place, and `.0` after a whole number if asked for. -/
def positional (d : Decimal) (keepsPoint : Bool) : String :=
  let digits := Nat.toDigits 10 d.digits
  if 0 ≤ d.exponent then
    String.ofList (digits ++ List.replicate d.exponent.toNat '0')
      ++ (if keepsPoint then ".0" else "")
  else
    let places := (-d.exponent).toNat
    let padded := List.replicate (places + 1 - digits.length) '0' ++ digits
    let whole := padded.length - places
    String.ofList (padded.take whole) ++ "." ++ String.ofList (padded.drop whole)

/-- One digit before the point, the rest after it, and an exponent. -/
def exponential (d : Decimal) (plusSign : Bool) : String :=
  let digits := Nat.toDigits 10 d.digits
  let mantissa := match digits with
    | [] => ""
    | [c] => String.ofList [c]
    | c :: rest => String.ofList (c :: '.' :: rest)
  let sign := if d.order < 0 then "-" else if plusSign then "+" else ""
  mantissa ++ "e" ++ sign ++ toString d.order.natAbs

/-- The decimal in a style. -/
def text (d : Decimal) (style : NumberStyle) : String :=
  match style.positional with
  | none => d.positional style.keepsPoint
  | some (least, greatest) =>
    if least ≤ d.order ∧ d.order ≤ greatest then d.positional style.keepsPoint
    else d.exponential style.plusSign

end Decimal

namespace Binary64

/-- The sign in front of a written value. -/
def signText (x : Binary64) : String := if x.negative then "-" else ""

/-- The value in a style. Infinity is `inf`, and what is no number is `NaN`, without a sign. -/
def text (x : Binary64) (style : NumberStyle) : String :=
  if x.isNaN then "NaN"
  else if !x.isFinite then x.signText ++ "inf"
  else if x.rank.val = 0 then x.signText ++ (if style.keepsPoint then "0.0" else "0")
  else x.signText ++ (Decimal.shortest style.tie x.rank.val).text style

/-- The value as it stands in messages. -/
def plainText (x : Binary64) : String := x.text .plain

/-- A finite value rounded to `places` digits after the point. -/
def fixed (x : Binary64) (places : Nat) : String :=
  x.signText ++ (Decimal.rounded x.size quantaPerOne (-places)).positional false

/-- A finite value other than zero rounded to `digits` significant digits, as its mantissa, with
the point after the first digit, and its exponent. -/
def scientific (x : Binary64) (digits : Nat) : String × Int :=
  let order := decimalOrder x.size quantaPerOne
  let d := Decimal.rounded x.size quantaPerOne (order - (digits : Int) + 1)
  let d := if Nat.pow 10 digits ≤ d.digits then ⟨d.digits / 10, d.exponent + 1⟩ else d
  (x.signText ++ (Decimal.mk d.digits (1 - (digits : Int))).positional false, d.order)

end Binary64

end LiveTuner
