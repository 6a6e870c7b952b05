import LiveTuner.Binary64.Basic

/-!
# Decimals

A finite binary number is shown to people and written to files as a decimal. This file holds what
all the written forms share: a nonnegative decimal as digits and a power of ten, the decimal order
of a quotient, and rounding a quotient to a decimal grid.

## Main definitions

* `Decimal` — a natural number times a power of ten
* `decimalOrder` — the exponent of the leading decimal digit of a quotient
* `gridQuotient` — a quotient counted in units of a power of ten
* `Decimal.nearest` — the double-precision value nearest to a decimal
-/

namespace LiveTuner

/-- The nonnegative decimal `digits * 10 ^ exponent`. -/
structure Decimal where
  /-- The digits, read as one natural number. -/
  digits : Nat
  /-- The power of ten that the last digit counts. -/
  exponent : Int
deriving DecidableEq, Repr

/-- The number of decimal digits of a natural number, one for zero. -/
def digitCount (n : Nat) : Nat := (Nat.toDigits 10 n).length

/-- The exponent of the leading decimal digit of a positive quotient: the greatest `e` for which
`10 ^ e ≤ num / den`. -/
def decimalOrder (num den : Nat) : Int :=
  if den ≤ num then (digitCount (num / den) : Int) - 1 else -(digitCount ((den - 1) / num) : Int)

/-- The quotient `num / den` counted in units of `10 ^ unit`, again as a quotient. -/
def gridQuotient (num den : Nat) (unit : Int) : Nat × Nat :=
  if 0 ≤ unit then (num, den * Nat.pow 10 unit.toNat) else (num * Nat.pow 10 (-unit).toNat, den)

namespace Decimal

/-- The exponent of the leading digit of a decimal other than zero. -/
def order (d : Decimal) : Int := d.exponent + digitCount d.digits - 1

/-- The rank of the double-precision value nearest to the decimal. -/
def nearestRank (d : Decimal) : Nat :=
  if 0 ≤ d.exponent then Binary64.nearestRank (d.digits * Nat.pow 10 d.exponent.toNat) 1
  else Binary64.nearestRank d.digits (Nat.pow 10 (-d.exponent).toNat)

/-- The double-precision value nearest to the decimal with the given sign. A decimal of an order
that no finite value has is settled by its order alone, so that huge exponents cost nothing. -/
def nearest (negative : Bool) (d : Decimal) : Binary64 :=
  if d.digits = 0 ∨ d.order < -330 then { Binary64.zero with negative }
  else if 310 < d.order then Binary64.infinity negative
  else if 0 ≤ d.exponent then Binary64.ofRatio negative (d.digits * Nat.pow 10 d.exponent.toNat) 1
  else Binary64.ofRatio negative d.digits (Nat.pow 10 (-d.exponent).toNat)

/-- The same decimal without trailing zeros, by at most `bound` steps. -/
def trimWithin : Nat → Decimal → Decimal
  | 0, d => d
  | bound + 1, d =>
    if d.digits ≠ 0 ∧ d.digits % 10 = 0 then trimWithin bound ⟨d.digits / 10, d.exponent + 1⟩ else d

/-- The same decimal without trailing zeros. -/
def trim (d : Decimal) : Decimal := trimWithin (digitCount d.digits) d

/-- The quotient rounded to a multiple of `10 ^ unit`, a tie going to the even digit. -/
def rounded (num den : Nat) (unit : Int) : Decimal :=
  let (n, d) := gridQuotient num den unit
  ⟨roundHalfEven n d, unit⟩

end Decimal

end LiveTuner
