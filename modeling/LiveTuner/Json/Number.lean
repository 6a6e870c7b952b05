import LiveTuner.Json.Basic
import LiveTuner.Json.Complaint
import LiveTuner.Literal

/-!
# Numbers in written data

A number is read digit by digit into a significand of 64 bits. Digits that no longer fit count
only by their place, so that a number of many digits is read approximately: its value is the
significand as a double-precision value, times or over a power of ten, rounded again. A number
without a fraction or an exponent whose digits fit is an integer.

## Main definitions

* `Json.readNumber` — the number at the start of a text
-/

namespace LiveTuner.Json

/-- Continues the significand by the digits at the start of the text as long as it stays below
`2 ^ 64`: the significand, the number of digits taken and what follows them. -/
def absorb (significand : Nat) : List Char → Nat × Nat × List Char
  | [] => (significand, 0, [])
  | c :: rest =>
    match digitValue? c with
    | none => (significand, 0, c :: rest)
    | some d =>
      let next := significand * 10 + d
      if next < 0x1_0000_0000_0000_0000 then
        let (result, taken, after) := absorb next rest
        (result, taken + 1, after)
      else (significand, 0, c :: rest)

/-- The number of digits at the start of the text and what follows them. -/
def countDigits : List Char → Nat × List Char
  | [] => (0, [])
  | c :: rest =>
    if (digitValue? c).isSome then
      let (count, after) := countDigits rest
      (count + 1, after)
    else (0, c :: rest)

/-- The power of ten as a double-precision value. -/
def powerOfTen (n : Nat) : Binary64 := .ofRatio false (Nat.pow 10 n) 1

/-- `x * 10 ^ exponent`, by steps of at most `10 ^ 308` each of which rounds; none when it is larger
than every finite value. -/
def scaleWithin : Nat → Binary64 → Int → Option Binary64
  | steps, x, exponent =>
    if exponent.natAbs ≤ 308 then
      if 0 ≤ exponent then
        let y := x.mul (powerOfTen exponent.natAbs)
        if y.isFinite then some y else none
      else some (x.div (powerOfTen exponent.natAbs))
    else if x.rank.val = 0 then some x
    else if 0 ≤ exponent then none
    else match steps with
      | 0 => some x
      | steps + 1 => scaleWithin steps (x.div (powerOfTen 308)) (exponent + 308)

/-- `significand * 10 ^ exponent` as a double-precision value. -/
def scale (significand : Nat) (exponent : Int) : Option Binary64 :=
  scaleWithin (exponent.natAbs / 308) (.ofInt significand) exponent

/-- The value with a minus sign if asked for. -/
def signed (negative : Bool) (x : Binary64) : Json := ofReal (if negative then x.neg else x)

/-- The number `significand * 10 ^ exponent`, which ends where `rest` begins. -/
def scaled (negative : Bool) (significand : Nat) (exponent : Int) (rest : List Char) :
    Reading Json :=
  match scale significand exponent with
  | some x => .ok (signed negative x, rest)
  | none => stop .numberOutOfRange rest

/-- The digits of an exponent after the first, as long as it stays below `2 ^ 31`; where it does
not, what follows the digit that made it too large. -/
def exponentDigits (value : Nat) : List Char → Except (List Char) (Nat × List Char)
  | [] => .ok (value, [])
  | c :: rest =>
    match digitValue? c with
    | none => .ok (value, c :: rest)
    | some d =>
      let next := value * 10 + d
      if next < 0x8000_0000 then exponentDigits next rest else .error rest

/-- Reads the exponent after its `e`. -/
def readExponentPart (negative : Bool) (significand : Nat) (exponent : Int) (text : List Char) :
    Reading Json :=
  let (down, text) := match text with
    | '+' :: rest => (false, rest)
    | '-' :: rest => (true, rest)
    | rest => (false, rest)
  match text with
  | [] => stop .endInValue []
  | c :: rest =>
    match digitValue? c with
    | none => stopAt .invalidNumber (c :: rest)
    | some d =>
      match exponentDigits d rest with
      | .ok (n, rest) =>
        scaled negative significand (if down then exponent - n else exponent + n) rest
      | .error rest =>
        if significand ≠ 0 ∧ down = false then stop .numberOutOfRange rest
        else .ok (signed negative .zero, (countDigits rest).2)

/-- Reads the fraction after its point. -/
def readFraction (negative : Bool) (significand : Nat) (exponent : Int) (text : List Char) :
    Reading Json :=
  let (significand, taken, rest) := absorb significand text
  let (ignored, rest) := countDigits rest
  if taken + ignored = 0 then
    if rest.isEmpty then stop .endInValue [] else stopAt .invalidNumber rest
  else
    match rest with
    | 'e' :: rest => readExponentPart negative significand (exponent - taken) rest
    | 'E' :: rest => readExponentPart negative significand (exponent - taken) rest
    | rest => scaled negative significand (exponent - taken) rest

/-- The integer with the given sign and significand: zero with a minus sign, and what does not fit
64 bits with a sign, is no integer. -/
def signedInteger (negative : Bool) (significand : Nat) : Json :=
  if negative then
    if h : 0 < significand ∧ significand ≤ 0x8000_0000_0000_0000 then
      integer ⟨-(significand : Int), by omega, by omega⟩
    else signed true (.ofInt significand)
  else if h : significand < 0x1_0000_0000_0000_0000 then
    integer ⟨significand, by omega, by omega⟩
  else signed false (.ofInt significand)

/-- Reads what follows the whole part, of which `ignored` digits did not fit the significand. -/
def readAfterWhole (negative : Bool) (significand ignored : Nat) (text : List Char) :
    Reading Json :=
  match text with
  | '.' :: rest => readFraction negative significand ignored rest
  | 'e' :: rest => readExponentPart negative significand ignored rest
  | 'E' :: rest => readExponentPart negative significand ignored rest
  | rest =>
    if ignored = 0 then .ok (signedInteger negative significand, rest)
    else scaled negative significand ignored rest

/-- The number at the start of the text, after its minus sign if it has one. A zero in front is
not followed by another digit. -/
def readNumber (negative : Bool) (text : List Char) : Reading Json :=
  match text with
  | [] => stop .endInValue []
  | c :: rest =>
    match digitValue? c with
    | none => stopAt .invalidNumber (c :: rest)
    | some 0 =>
      if (countDigits rest).1 = 0 then readAfterWhole negative 0 0 rest
      else stopAt .invalidNumber rest
    | some d =>
      let (significand, _, rest) := absorb d rest
      let (ignored, rest) := countDigits rest
      readAfterWhole negative significand ignored rest

end LiveTuner.Json
