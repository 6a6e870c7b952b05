/-!
# UTF-8

Text travels as octets. `Utf8.encode` spells a text, `Utf8.decode` reads one back and says where
the octets stop being a text: at an octet that no character continues with, or at an end in the
middle of a character.

## Main definitions

* `Utf8.encode` — the octets of a text
* `Utf8.decode` — the text of a sequence of octets, or a `Utf8.Fault`
-/

namespace LiveTuner.Utf8

/-- The octet that continues a character with its low six bits. -/
def continuation (n : Nat) : UInt8 := UInt8.ofNat (0x80 + n % 0x40)

/-- The octets of a character. -/
def encodeChar (c : Char) : List UInt8 :=
  let n := c.toNat
  if n < 0x80 then [UInt8.ofNat n]
  else if n < 0x800 then [UInt8.ofNat (0xc0 + n / 0x40), continuation n]
  else if n < 0x10000 then
    [UInt8.ofNat (0xe0 + n / 0x1000), continuation (n / 0x40), continuation n]
  else
    [UInt8.ofNat (0xf0 + n / 0x40000), continuation (n / 0x1000), continuation (n / 0x40),
      continuation n]

/-- The octets of a text. -/
def encode (text : List Char) : List UInt8 := text.flatMap encodeChar

/-- How many octets a text takes. -/
def octetCount (text : List Char) : Nat := text.foldr (fun c n => c.utf8Size + n) 0

/-- Why octets are no text. -/
inductive Fault where
  /-- The `length` octets from `index` on begin no character. -/
  | invalid (length index : Nat)
  /-- The octets end within the character that begins at `index`. -/
  | incomplete (index : Nat)
deriving DecidableEq, Repr

/-- The wording of a fault. -/
def Fault.message : Fault → String
  | .invalid length index => s!"invalid utf-8 sequence of {length} bytes from index {index}"
  | .incomplete index => s!"incomplete utf-8 byte sequence from index {index}"

/-- Whether the octet continues a character. -/
def isContinuation (b : UInt8) : Bool := 0x80 ≤ b && b ≤ 0xbf

/-- Whether `b` may follow the first octet `a` of a character of three or four octets: shorter
spellings, surrogates and numbers past the last character are excluded here. -/
def isSecond (a b : UInt8) : Bool :=
  if a = 0xe0 then 0xa0 ≤ b && b ≤ 0xbf
  else if a = 0xed then 0x80 ≤ b && b ≤ 0x9f
  else if a = 0xf0 then 0x90 ≤ b && b ≤ 0xbf
  else if a = 0xf4 then 0x80 ≤ b && b ≤ 0x8f
  else isContinuation b

/-- The six bits that a continuation octet carries. -/
def payload (b : UInt8) : Nat := b.toNat % 0x40

/-- Reads octets that begin at `index` of the whole. -/
def decodeFrom (index : Nat) : List UInt8 → Except Fault (List Char)
  | [] => .ok []
  | a :: rest =>
    if a < 0x80 then (decodeFrom (index + 1) rest).map (Char.ofNat a.toNat :: ·)
    else if 0xc2 ≤ a && a ≤ 0xdf then
      match rest with
      | [] => .error (.incomplete index)
      | b :: rest =>
        if !isContinuation b then .error (.invalid 1 index)
        else (decodeFrom (index + 2) rest).map
          (Char.ofNat (a.toNat % 0x20 * 0x40 + payload b) :: ·)
    else if 0xe0 ≤ a && a ≤ 0xef then
      match rest with
      | [] => .error (.incomplete index)
      | [b] => if !isSecond a b then .error (.invalid 1 index) else .error (.incomplete index)
      | b :: c :: rest =>
        if !isSecond a b then .error (.invalid 1 index)
        else if !isContinuation c then .error (.invalid 2 index)
        else (decodeFrom (index + 3) rest).map
          (Char.ofNat (a.toNat % 0x10 * 0x1000 + payload b * 0x40 + payload c) :: ·)
    else if 0xf0 ≤ a && a ≤ 0xf4 then
      match rest with
      | [] => .error (.incomplete index)
      | [b] => if !isSecond a b then .error (.invalid 1 index) else .error (.incomplete index)
      | [b, c] =>
        if !isSecond a b then .error (.invalid 1 index)
        else if !isContinuation c then .error (.invalid 2 index)
        else .error (.incomplete index)
      | b :: c :: d :: rest =>
        if !isSecond a b then .error (.invalid 1 index)
        else if !isContinuation c then .error (.invalid 2 index)
        else if !isContinuation d then .error (.invalid 3 index)
        else (decodeFrom (index + 4) rest).map
          (Char.ofNat (a.toNat % 0x8 * 0x40000 + payload b * 0x1000 + payload c * 0x40
            + payload d) :: ·)
    else .error (.invalid 1 index)

/-- The text that the octets spell. -/
def decode (octets : List UInt8) : Except Fault (List Char) := decodeFrom 0 octets

example : decode (encode ['a', 'é', '€', '😀']) = .ok ['a', 'é', '€', '😀'] := by rfl

example : decode [0x41, 0xed, 0xa0, 0x80] = .error (.invalid 1 1) := by rfl

example : decode [0xf0, 0x9f] = .error (.incomplete 0) := by rfl

end LiveTuner.Utf8
