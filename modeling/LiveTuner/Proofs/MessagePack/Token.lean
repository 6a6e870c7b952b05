import LiveTuner.MessagePack.Token
import LiveTuner.MessagePack.Writer
import LiveTuner.Proofs.Text.Utf8
import Mathlib.Algebra.Ring.Nat

/-!
# Reading written tokens

Whatever form a number, a text or the head of a sequence is written in, the reader finds the same
token at the start of the payload, and what comes after it. The form depends on the size, and the
marker tells the form.

Lengths take at most four octets. What is longer is written with a length that is too small, and is
not read back; so lengths are taken to fit.

## Main results

* `MessagePack.readNat_octetsOf` — a number in a fixed number of octets
* `MessagePack.readToken_writeInteger`, `MessagePack.readToken_writeReal`,
  `MessagePack.readToken_writeText`, `MessagePack.readToken_writeArrayHead`,
  `MessagePack.readToken_writeMapHead` — a token for each thing that is written
-/

namespace LiveTuner

theorem WireInteger.eq_of_val_eq {n m : WireInteger} (h : n.val = m.val) : n = m := by
  cases n
  cases m
  cases h
  rfl

namespace MessagePack

variable {octets rest : List UInt8} {width length m : Nat} {n : Int} {marker : UInt8}

/-! ### Octets -/

theorem length_octetsOf (width m : Nat) : (octetsOf width m).length = width := by
  induction width with
  | zero => rfl
  | succ width ih => rw [octetsOf, List.length_cons, ih]

theorem splitOctets_append (octets rest : List UInt8) :
    splitOctets octets.length (octets ++ rest) = some (octets, rest) := by
  induction octets with
  | nil => rfl
  | cons b octets ih => rw [List.cons_append, List.length_cons, splitOctets, ih, Option.map_some]

/-- The octets of a number spell it behind any octets in front of them. -/
theorem foldl_octetsOf (width m front : Nat) :
    (octetsOf width m).foldl (fun n b => n * 256 + b.toNat) front =
      front * 2 ^ (8 * width) + m % 2 ^ (8 * width) := by
  induction width generalizing front with
  | zero => simp [octetsOf, Nat.mod_one]
  | succ width ih =>
    -- What stands in front moves up by one octet, and the first octet takes the place below it.
    have hpow : 2 ^ (8 * (width + 1)) = 2 ^ (8 * width) * 256 := by
      rw [Nat.mul_add, Nat.pow_add]
    have hoctet : (UInt8.ofNat (m >>> (8 * width))).toNat = m / 2 ^ (8 * width) % 256 := by
      rw [UInt8.toNat_ofNat', Nat.shiftRight_eq_div_pow]
    rw [octetsOf, List.foldl_cons, ih, hoctet, hpow, Nat.mod_mul, Nat.add_mul, Nat.mul_assoc,
      Nat.mul_comm 256, Nat.mul_comm (m / 2 ^ (8 * width) % 256), Nat.add_comm (m % _),
      Nat.add_assoc]

/-- A number that fits the octets it is written in is read back. -/
theorem readNat_octetsOf (h : m < 2 ^ (8 * width)) :
    readNat width (octetsOf width m ++ rest) = .ok (m, rest) := by
  have hsplit := splitOctets_append (octetsOf width m) rest
  rw [length_octetsOf] at hsplit
  have hvalue : bigEndian (octetsOf width m) = m := by
    rw [bigEndian, foldl_octetsOf, Nat.zero_mul, Nat.zero_add, Nat.mod_eq_of_lt h]
  rw [readNat, hsplit]
  simp only [hvalue]

theorem readBody_append (octets rest : List UInt8) :
    readBody octets.length (octets ++ rest) = .ok (octets, rest) := by
  rw [readBody, splitOctets_append]

/-! ### Markers that hold a number -/

theorem readToken_small (h : marker.toNat < 0x80) : readToken (marker :: rest) =
    .ok (.integer (.ofUInt64 (UInt64.ofNat marker.toNat)), rest) := by
  simp only [readToken, readAfterMarker, h, if_true]

theorem readToken_negative (h : 0xe0 ≤ marker.toNat) :
    readToken (marker :: rest) = .ok (.integer (withSign 1 marker.toNat), rest) := by
  have h1 : ¬ marker.toNat < 0x80 := by omega
  have h2 : ¬ marker.toNat < 0x90 := by omega
  have h3 : ¬ marker.toNat < 0xa0 := by omega
  have h4 : ¬ marker.toNat < 0xc0 := by omega
  simp only [readToken, readAfterMarker, h1, h2, h3, h4, h, if_true, if_false]

theorem readToken_shortMap (hlength : length < 0x10) (hmarker : marker.toNat = 0x80 + length) :
    readToken (marker :: rest) = .ok (.map length, rest) := by
  have h1 : ¬ 0x80 + length < 0x80 := by omega
  have h2 : 0x80 + length < 0x90 := by omega
  simp only [readToken, readAfterMarker, hmarker, h1, h2, if_true, if_false,
    Nat.add_sub_cancel_left]

theorem readToken_shortArray (hlength : length < 0x10) (hmarker : marker.toNat = 0x90 + length) :
    readToken (marker :: rest) = .ok (.array length, rest) := by
  have h1 : ¬ 0x90 + length < 0x80 := by omega
  have h2 : ¬ 0x90 + length < 0x90 := by omega
  have h3 : 0x90 + length < 0xa0 := by omega
  simp only [readToken, readAfterMarker, hmarker, h1, h2, h3, if_true, if_false,
    Nat.add_sub_cancel_left]

theorem readToken_shortText (hlength : octets.length < 0x20)
    (hmarker : marker.toNat = 0xa0 + octets.length) :
    readToken (marker :: (octets ++ rest)) = .ok (.text octets, rest) := by
  have h1 : ¬ 0xa0 + octets.length < 0x80 := by omega
  have h2 : ¬ 0xa0 + octets.length < 0x90 := by omega
  have h3 : ¬ 0xa0 + octets.length < 0xa0 := by omega
  have h4 : 0xa0 + octets.length < 0xc0 := by omega
  simp only [readToken, readAfterMarker, hmarker, h1, h2, h3, h4, if_true, if_false,
    Nat.add_sub_cancel_left, readBody_append, Except.map]

/-! ### Integers -/

theorem ofUInt64_ofNat {w : WireInteger} (h : (m : Int) = w.val) :
    WireInteger.ofUInt64 (UInt64.ofNat m) = w := by
  have hupper := w.upper
  have hlt : m < 0x1_0000_0000_0000_0000 := by omega
  have hm : (UInt64.ofNat m).toNat = m := UInt64.toNat_ofNat_of_lt' hlt
  apply WireInteger.eq_of_val_eq
  rw [← h]
  exact congrArg Nat.cast hm

/-- A negative number is written as its distance from the end of the numbers of that width. -/
theorem withSign_toNat {w : WireInteger} (hwidth : 0 < width) (hwidth' : width ≤ 8)
    (hlow : -(2 ^ (8 * width - 1) : Nat) ≤ w.val) (hneg : w.val < 0) :
    withSign width (w.val + (2 ^ (8 * width) : Nat)).toNat = w := by
  have htwice : 2 ^ (8 * width) = 2 * 2 ^ (8 * width - 1) := by
    rw [← Nat.pow_succ']
    congr 1
    omega
  have hmax : 2 ^ (8 * width - 1) ≤ 2 ^ 63 := Nat.pow_le_pow_right (by decide) (by omega)
  rw [withSign, Nat.one_shiftLeft, Nat.one_shiftLeft, htwice]
  -- From here on the width does not matter, only that it is one of at most eight octets.
  generalize 2 ^ (8 * width - 1) = half at hlow hmax ⊢
  have hlarge : ¬ (w.val + (2 * half : Nat)).toNat < half := by omega
  have hvalue : ((w.val + (2 * half : Nat)).toNat : Int) - (2 * half : Nat) = w.val := by omega
  rw [if_neg hlarge, hvalue]
  apply WireInteger.eq_of_val_eq
  exact Int64.toInt_ofInt_of_le (by omega) (by omega)

theorem readUnsigned_octetsOf (width : Nat) {w : WireInteger} (hsign : 0 ≤ w.val)
    (h : w.val.toNat < 2 ^ (8 * width)) :
    readUnsigned width (octetsOf width w.val.toNat ++ rest) = .ok (.integer w, rest) := by
  rw [readUnsigned, readNat_octetsOf h]
  simp only [Except.map, ofUInt64_ofNat (Int.toNat_of_nonneg hsign)]

theorem readSigned_octetsOf (width : Nat) {w : WireInteger} (hwidth : 0 < width)
    (hwidth' : width ≤ 8) (hlow : -(2 ^ (8 * width - 1) : Nat) ≤ w.val) (hneg : w.val < 0) :
    readSigned width (octetsOf width (w.val + (2 ^ (8 * width) : Nat)).toNat ++ rest) =
      .ok (.integer w, rest) := by
  have hpos := Nat.two_pow_pos (8 * width)
  have hfits : (w.val + (2 ^ (8 * width) : Nat)).toNat < 2 ^ (8 * width) := by omega
  rw [readSigned, readNat_octetsOf hfits]
  simp only [Except.map, withSign_toNat hwidth hwidth' hlow hneg]

/-- A small integer is its own marker. -/
theorem readToken_ofNat {w : WireInteger} (hsign : 0 ≤ w.val) (h : w.val.toNat < 0x80) :
    readToken (UInt8.ofNat w.val.toNat :: rest) = .ok (.integer w, rest) := by
  have hmarker := Utf8.toNat_ofNat_of_lt (n := w.val.toNat) (by omega)
  rw [readToken_small (by omega), hmarker, ofUInt64_ofNat (Int.toNat_of_nonneg hsign)]

/-- So is a negative one close to zero. -/
theorem readToken_octetsOf_one {w : WireInteger} (hlow : -0x20 ≤ w.val) (hneg : w.val < 0) :
    readToken (octetsOf 1 (w.val + 0x100).toNat ++ rest) = .ok (.integer w, rest) := by
  obtain ⟨k, hk⟩ : ∃ k, k = (w.val + 0x100).toNat := ⟨_, rfl⟩
  have hmarker : (UInt8.ofNat (k >>> (8 * 0))).toNat = k := Utf8.toNat_ofNat_of_lt (by
    rw [Nat.shiftRight_zero]
    omega)
  have hsign : withSign 1 k = w := hk ▸ withSign_toNat (by decide) (by decide) (by omega) hneg
  rw [← hk, octetsOf, octetsOf, List.cons_append, List.nil_append, readToken_negative (by omega),
    hmarker, hsign]

/-- An integer of any size is read back as itself. -/
theorem readToken_writeInteger (w : WireInteger) (rest : List UInt8) :
    readToken (writeInteger w.val ++ rest) = .ok (.integer w, rest) := by
  obtain ⟨hlower, hupper⟩ := And.intro w.lower w.upper
  rw [writeInteger]
  dsimp only
  -- By the width it is written in: without a sign, then with one.
  split_ifs with hsign
  · exact readToken_ofNat hsign ‹_›
  · exact readUnsigned_octetsOf 1 hsign ‹_›
  · exact readUnsigned_octetsOf 2 hsign ‹_›
  · exact readUnsigned_octetsOf 4 hsign ‹_›
  · exact readUnsigned_octetsOf 8 hsign (by omega)
  · exact readToken_octetsOf_one ‹_› (by omega)
  · exact readSigned_octetsOf 1 (by decide) (by decide) ‹_› (by omega)
  · exact readSigned_octetsOf 2 (by decide) (by decide) ‹_› (by omega)
  · exact readSigned_octetsOf 4 (by decide) (by decide) ‹_› (by omega)
  · exact readSigned_octetsOf 8 (by decide) (by decide) hlower (by omega)

/-! ### Numbers, truth values and texts -/

theorem readToken_writeBool (b : Bool) (rest : List UInt8) :
    readToken (writeBool b ++ rest) = .ok (.bool b, rest) := by
  cases b <;> rfl

theorem readToken_writeReal (x : Binary64) (rest : List UInt8) :
    readToken (writeReal x ++ rest) = .ok (.real x, rest) := by
  have hbits : readNat 8 (octetsOf 8 x.toBits ++ rest) = .ok (x.toBits, rest) :=
    readNat_octetsOf x.toBits_lt
  change (readNat 8 (octetsOf 8 x.toBits ++ rest)).map
    (fun read => (Token.real (.ofBits read.1), read.2)) = _
  rw [hbits]
  simp only [Except.map, Binary64.ofBits_toBits]

/-- Octets behind their number. -/
theorem readSized_octetsOf (width : Nat) {make : List UInt8 → Token}
    (h : octets.length < 2 ^ (8 * width)) :
    readSized make width (octetsOf width octets.length ++ (octets ++ rest)) =
      .ok (make octets, rest) := by
  rw [readSized, readNat_octetsOf h]
  simp only [readBody_append, Except.map]

/-- A text is read back as its octets. -/
theorem readToken_writeText {s : String} (h : (Utf8.encode s.toList).length < 0x1_0000_0000)
    (rest : List UInt8) :
    readToken (writeText s ++ rest) = .ok (.text (Utf8.encode s.toList), rest) := by
  rw [writeText]
  rw [Nat.mod_eq_of_lt h, List.append_assoc]
  split_ifs
  · exact readToken_shortText ‹_› (Utf8.toNat_ofNat_of_lt (by omega))
  · exact readSized_octetsOf 1 ‹_›
  · exact readSized_octetsOf 2 ‹_›
  · exact readSized_octetsOf 4 h

/-! ### Heads -/

theorem readHead_octetsOf (width : Nat) {head : Nat → Token} (h : length < 2 ^ (8 * width)) :
    readHead head width (octetsOf width length ++ rest) = .ok (head length, rest) := by
  rw [readHead, readNat_octetsOf h]
  rfl

/-- The head of a sequence is read back as its length. -/
theorem readToken_writeArrayHead (h : length < 0x1_0000_0000) (rest : List UInt8) :
    readToken (writeArrayHead length ++ rest) = .ok (.array length, rest) := by
  rw [writeArrayHead]
  rw [Nat.mod_eq_of_lt h]
  split_ifs
  · exact readToken_shortArray ‹_› (Utf8.toNat_ofNat_of_lt (by omega))
  · exact readHead_octetsOf 2 ‹_›
  · exact readHead_octetsOf 4 h

/-- The head of a map is read back as its length. -/
theorem readToken_writeMapHead (h : length < 0x1_0000_0000) (rest : List UInt8) :
    readToken (writeMapHead length ++ rest) = .ok (.map length, rest) := by
  rw [writeMapHead]
  rw [Nat.mod_eq_of_lt h]
  split_ifs
  · exact readToken_shortMap ‹_› (Utf8.toNat_ofNat_of_lt (by omega))
  · exact readHead_octetsOf 2 ‹_›
  · exact readHead_octetsOf 4 h

end MessagePack

end LiveTuner
