import LiveTuner.Decimal.Basic

/-!
# Numbers written as words

A word of a command may stand for an integer or for a double-precision number. This file reads
both and says why a word is no number.

## Main definitions

* `readInteger` — a word as an integer between two bounds
* `readReal` — a word as a double-precision number, correctly rounded
-/

namespace LiveTuner

/-- The value of a decimal digit. -/
def digitValue? (c : Char) : Option Nat :=
  if '0' ≤ c ∧ c ≤ '9' then some (c.toNat - '0'.toNat) else none

/-! ### Integers -/

/-- Why a word is no integer within the bounds. -/
inductive IntegerFault where
  /-- The word has no characters. -/
  | empty
  /-- A character is no digit, or there is none after the sign. -/
  | invalidDigit
  /-- The integer is above the upper bound. -/
  | tooLarge
  /-- The integer is below the lower bound. -/
  | tooSmall
deriving DecidableEq, Repr

/-- The wording of a fault. -/
def IntegerFault.message : IntegerFault → String
  | .empty => "cannot parse integer from empty string"
  | .invalidDigit => "invalid digit found in string"
  | .tooLarge => "number too large to fit in target type"
  | .tooSmall => "number too small to fit in target type"

/-- Continues the integer `value` by further digits. The first digit that leaves the bounds and the
first character that is no digit compete: whichever comes first is reported. -/
def readDigits (lower upper : Int) (negative : Bool) :
    Int → List Char → Except IntegerFault Int
  | value, [] => .ok value
  | value, c :: rest =>
    match digitValue? c with
    | none => .error .invalidDigit
    | some d =>
      if negative then
        let next := value * 10 - d
        if next < lower then .error .tooSmall else readDigits lower upper negative next rest
      else
        let next := value * 10 + d
        if upper < next then .error .tooLarge else readDigits lower upper negative next rest

/-- The integer that a word stands for: digits after an optional sign. A minus sign is allowed
only where the lower bound is negative. -/
def readInteger (lower upper : Int) (word : List Char) : Except IntegerFault Int :=
  match word with
  | [] => .error .empty
  | ['+'] => .error .invalidDigit
  | ['-'] => .error .invalidDigit
  | '+' :: digits => readDigits lower upper false 0 digits
  | '-' :: digits =>
    if lower < 0 then readDigits lower upper true 0 digits else .error .invalidDigit
  | digits => readDigits lower upper false 0 digits

/-- The integer of 64 bits with a sign that a word stands for. -/
def readInt64 (word : List Char) : Except IntegerFault Int64 :=
  (readInteger Int64.minValue.toInt Int64.maxValue.toInt word).map Int64.ofInt

/-- The position, a natural number below `2 ^ 64`, that a word stands for. -/
def readPosition (word : List Char) : Except IntegerFault Nat :=
  (readInteger 0 0xffff_ffff_ffff_ffff word).map Int.toNat

example : readInt64 "-9223372036854775808".toList = .ok Int64.minValue := by rfl

example : readPosition "-1".toList = .error .invalidDigit := by rfl

/-! ### Double-precision numbers -/

/-- Why a word is no number. -/
inductive RealFault where
  /-- The word has no characters. -/
  | empty
  /-- The word has another form. -/
  | malformed
deriving DecidableEq, Repr

/-- The wording of a fault. -/
def RealFault.message : RealFault → String
  | .empty => "cannot parse float from empty string"
  | .malformed => "invalid float literal"

/-- The leading digits of a text and what follows them. -/
def spanDigits (text : List Char) : List Nat × List Char :=
  match text with
  | [] => ([], [])
  | c :: rest =>
    match digitValue? c with
    | none => ([], c :: rest)
    | some d => let (ds, after) := spanDigits rest; (d :: ds, after)

/-- The natural number with the given decimal digits, continuing `start`. -/
def ofDigits (start : Nat) (digits : List Nat) : Nat :=
  digits.foldl (fun n d => 10 * n + d) start

/-- The exponent with the given digits. Once it has reached 65536 further digits are ignored: no
mantissa of fewer digits than that makes up for such an exponent. -/
def exponentOfDigits (digits : List Nat) : Nat :=
  digits.foldl (fun n d => if n < 65536 then 10 * n + d else n) 0

/-- The exponent at the end of a number: absent, or `e` and an integer. -/
def readExponent (text : List Char) : Option Int :=
  match text with
  | [] => some 0
  | c :: rest =>
    if c ≠ 'e' ∧ c ≠ 'E' then none
    else
      let (negative, rest) := match rest with
        | '-' :: rest => (true, rest)
        | '+' :: rest => (false, rest)
        | rest => (false, rest)
      match spanDigits rest with
      | ([], _) => none
      | (ds, []) => let n : Int := exponentOfDigits ds; some (if negative then -n else n)
      | _ => none

/-- The number that a word without its sign stands for: digits with an optional point among or
around them and an optional exponent, or a name of infinity or of what is no number. -/
def readUnsigned (negative : Bool) (text : List Char) : Option Binary64 :=
  let (whole, rest) := spanDigits text
  let (fraction, rest) := match rest with
    | '.' :: rest => spanDigits rest
    | rest => ([], rest)
  if whole.isEmpty && fraction.isEmpty then
    let name := text.map Char.toLower
    if name = ['i', 'n', 'f'] ∨ name = ['i', 'n', 'f', 'i', 'n', 'i', 't', 'y'] then
      some (.infinity negative)
    else if name = ['n', 'a', 'n'] then some (.nan negative)
    else none
  else
    (readExponent rest).map fun exponent =>
      Decimal.nearest negative
        ⟨ofDigits (ofDigits 0 whole) fraction, exponent - (fraction.length : Int)⟩

/-- The double-precision number that a word stands for. -/
def readReal (word : List Char) : Except RealFault Binary64 :=
  let number? := match word with
    | [] => none
    | '-' :: rest => readUnsigned true rest
    | '+' :: rest => readUnsigned false rest
    | rest => readUnsigned false rest
  match number? with
  | some x => .ok x
  | none => .error (if word.isEmpty then .empty else .malformed)

end LiveTuner
