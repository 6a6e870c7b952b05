import LiveTuner.Json.Reader

/-!
# Passing over data values

A record may hold fields that the program does not know. Their values are passed over and not read:
numbers may be of any size, escapes need not stand for a character, and nesting has no bound.

## Main definitions

* `Json.skipValue` — the text after the value at its start
-/

namespace LiveTuner.Json

/-- The text after the digits at its start. -/
def skipDigits (text : List Char) : List Char := (countDigits text).2

/-- Passes over an exponent after its `e`. -/
def skipExponent (text : List Char) : Except Stop (List Char) :=
  let text := match text with
    | '+' :: rest => rest
    | '-' :: rest => rest
    | rest => rest
  match text with
  | [] => stop .invalidNumber []
  | c :: rest =>
    if (digitValue? c).isSome then .ok (skipDigits rest) else stopAt .invalidNumber (c :: rest)

/-- Passes over an exponent, if there is one. -/
def skipExponent? (text : List Char) : Except Stop (List Char) :=
  match text with
  | 'e' :: rest => skipExponent rest
  | 'E' :: rest => skipExponent rest
  | rest => .ok rest

/-- Passes over a number after its minus sign. -/
def skipNumber (text : List Char) : Except Stop (List Char) :=
  match text with
  | [] => stop .invalidNumber []
  | c :: rest =>
    if (digitValue? c).isNone then stopAt .invalidNumber (c :: rest)
    else if c = '0' ∧ (countDigits rest).1 ≠ 0 then stopAt .invalidNumber rest
    else
      match skipDigits rest with
      | '.' :: rest =>
        if (countDigits rest).1 = 0 then stopAt .invalidNumber rest
        else skipExponent? (skipDigits rest)
      | rest => skipExponent? rest

/-- Passes over a text after its opening quote. -/
def skipText : List Char → Except Stop (List Char)
  | [] => stop .endInText []
  | '"' :: rest => .ok rest
  | '\\' :: 'u' :: text =>
    match text with
    | a :: b :: c :: d :: rest =>
      if (hexNumber? a b c d).isSome then skipText rest else stopInHex (a :: b :: c :: d :: rest)
    | text => stopInHex text
  | '\\' :: [] => stop .endInText []
  | '\\' :: c :: rest =>
    if (simpleEscape? c).isSome then skipText rest else stopAt .invalidEscape (c :: rest)
  | c :: rest =>
    if c.toNat < 0x20 then stop .controlCharacter (c :: rest) else skipText rest

/-- Passes over a key with its colon; the key is known to be next unless the text is at fault. -/
def skipKey (text : List Char) : Except Stop (List Char) :=
  match skipGaps text with
  | [] => stop .endInObject []
  | '"' :: rest => do
    let rest ← skipText rest
    let (_, rest) ← readColon rest
    pure rest
  | rest => stopAt .keyNotText rest

/-- The closing bracket of what a bracket opens. -/
inductive Bracket where
  /-- A sequence. -/
  | list
  /-- An object. -/
  | object
deriving DecidableEq, Repr

/-- The character that closes the bracket. -/
def Bracket.closing : Bracket → Char
  | .list => ']'
  | .object => '\x7d'

mutual

/-- Passes over the value at the start of a text, in at most `bound` steps. -/
def skipValueWithin (bound : Nat) (text : List Char) : Except Stop (List Char) :=
  match bound with
  | 0 => stop .noValue text
  | bound + 1 =>
    match skipGaps text with
    | [] => stop .endInValue []
    | c :: rest =>
      if c = 'n' then (readWord () ['u', 'l', 'l'] rest).map Prod.snd
      else if c = 't' then (readWord () ['r', 'u', 'e'] rest).map Prod.snd
      else if c = 'f' then (readWord () ['a', 'l', 's', 'e'] rest).map Prod.snd
      else if c = '-' then skipNumber rest
      else if (digitValue? c).isSome then skipNumber (c :: rest)
      else if c = '"' then skipText rest
      else if c = '[' then skipItemsWithin bound .list true rest
      else if c = '\x7b' then skipItemsWithin bound .object true rest
      else stopAt .noValue (c :: rest)

/-- Passes over the items of a sequence or an object up to its end, in at most `bound` steps. -/
def skipItemsWithin (bound : Nat) (bracket : Bracket) (first : Bool) (text : List Char) :
    Except Stop (List Char) :=
  match bound with
  | 0 => stop .noValue text
  | bound + 1 =>
    match skipGaps text with
    | [] =>
      match bracket with
      | .list => stop .endInList []
      | .object => stop .endInObject []
    | c :: rest =>
      if c = bracket.closing then .ok rest
      else if !first && c != ',' then
        match bracket with
        | .list => stopAt .listNotEnded (c :: rest)
        | .object => stopAt .objectNotEnded (c :: rest)
      else do
        let text := if first then c :: rest else rest
        let text ← match bracket with
          | .list => pure text
          | .object => skipKey text
        let rest ← skipValueWithin bound text
        skipItemsWithin bound bracket false rest

end

/-- Passes over the value at the start of a text. -/
def skipValue (text : List Char) : Except Stop (List Char) :=
  skipValueWithin (2 * text.length + 2) text

end LiveTuner.Json
