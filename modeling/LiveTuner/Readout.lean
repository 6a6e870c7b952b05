import LiveTuner.Decimal.Written

/-!
# Readouts

The number beside a slider has little room. Between a thousandth and ten thousand the readout is the
beginning of the number; outside, a number of more than six characters is rounded to two
significant digits, in exponent form where the digits would be far from the point.

## Main definitions

* `readout` — a number as it is shown beside a slider
-/

namespace LiveTuner

/-- The number of characters of a readout. -/
def readoutWidth : Nat := 6

/-- Written digits without zeros at the end of the fraction, and without a point at the end. -/
def trimFraction (digits : String) : String :=
  if digits.toList.contains '.' then
    let trimmed := digits.toList.reverse.dropWhile (· = '0')
    String.ofList (trimmed.dropWhile (· = '.')).reverse
  else digits

/-- How many ranks below a power of ten a value still counts as that power. -/
def orderSlack : Nat := 6

/-- The order of a finite value other than zero, where a value within `orderSlack` ranks of a power
of ten counts as that power. -/
def roughOrder (x : Binary64) : Int :=
  decimalOrder (Binary64.quanta (x.rank.val + orderSlack)) Binary64.quantaPerOne

/-- The value rounded to two significant digits: with a point for the orders from -6 to 1, else with
an exponent that has a sign. -/
def twoDigits (x : Binary64) : String :=
  if x.rank.val = 0 || !x.isFinite then x.plainText
  else
    let order := roughOrder x
    if order < -6 ∨ 2 ≤ order then
      let (mantissa, exponent) := x.scientific 2
      trimFraction mantissa ++ "e" ++ (if exponent < 0 then "-" else "+")
        ++ toString exponent.natAbs
    else trimFraction (x.fixed (1 - order).toNat)

/-- The value as it is shown beside a slider. -/
def readout (x : Binary64) : String :=
  let text := x.plainText
  let least := Decimal.nearest false ⟨1, -3⟩
  let greatest := Binary64.ofInt 10000
  if least.lt x.abs && x.abs.lt greatest then String.ofList (text.toList.take readoutWidth)
  else if readoutWidth < text.length then twoDigits x
  else text

end LiveTuner
