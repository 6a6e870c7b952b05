import LiveTuner.Proofs.Outcome
import LiveTuner.Text.Utf8
import Mathlib.Tactic.SplitIfs

/-!
# Reading spelled text

The octets that spell a text are read back as that text, whatever its characters are: the first
octet of a character says how many follow it, and each of those carries six bits of its number.

No other octets are read as that text. A character has one spelling, since longer ones, and those of
numbers that no character has, are refused at the second octet.

## Main results

* `Utf8.decodeFrom_encodeChar` — the octets of a character are read as that character
* `Utf8.decode_eq_ok_iff` — the octets that are read as a text are those that spell it
* `Utf8.le_toNat_of_decode` — an octet past ASCII begins no ASCII
-/

namespace LiveTuner.Utf8

variable {a b c d : UInt8} {octets rest : List UInt8} {text : List Char} {n index : Nat}

/-! ### Octets by their numbers -/

theorem toNat_ofNat_of_lt (h : n < 0x100) : (UInt8.ofNat n).toNat = n :=
  UInt8.toNat_ofNat_of_lt' h

theorem not_ascii (h : 0x80 ≤ a.toNat) : ¬ a < 0x80 := by
  rw [UInt8.lt_iff_toNat_lt]
  exact Nat.not_lt.mpr h

/-- An octet lies between two others when its number does. -/
theorem between_iff {x y : UInt8} :
    (x ≤ a && a ≤ y) = true ↔ x.toNat ≤ a.toNat ∧ a.toNat ≤ y.toNat := by
  simp [UInt8.le_iff_toNat_le]

theorem not_between_of_lt {x y : UInt8} (h : y.toNat < a.toNat) : ¬ (x ≤ a && a ≤ y) = true :=
  fun hle => Nat.not_le.mpr h (between_iff.mp hle).2

theorem isContinuation_iff : isContinuation b = true ↔ 0x80 ≤ b.toNat ∧ b.toNat ≤ 0xbf :=
  between_iff

theorem toNat_continuation (n : Nat) : (continuation n).toNat = 0x80 + n % 0x40 :=
  toNat_ofNat_of_lt (by omega)

theorem isContinuation_continuation (n : Nat) : isContinuation (continuation n) = true := by
  rw [isContinuation_iff, toNat_continuation]
  omega

theorem payload_continuation (n : Nat) : payload (continuation n) = n % 0x40 := by
  rw [payload, toNat_continuation]
  omega

/-- An octet that continues a character comes second, unless it would make the spelling too long for
its number, the number one of a surrogate, or the number too large. -/
theorem isSecond_of_bounds (hb : isContinuation b = true)
    (hlong : a.toNat = 0xe0 → 0xa0 ≤ b.toNat) (hsurrogate : a.toNat = 0xed → b.toNat ≤ 0x9f)
    (hlonger : a.toNat = 0xf0 → 0x90 ≤ b.toNat) (hlarge : a.toNat = 0xf4 → b.toNat ≤ 0x8f) :
    isSecond a b = true := by
  obtain ⟨hlow, hhigh⟩ := isContinuation_iff.mp hb
  rw [isSecond]
  -- Only four first octets narrow the range of the second one, each at one end.
  split_ifs with h1 h2 h3 h4
  · exact between_iff.mpr ⟨hlong (h1 ▸ rfl), hhigh⟩
  · exact between_iff.mpr ⟨hlow, hsurrogate (h2 ▸ rfl)⟩
  · exact between_iff.mpr ⟨hlonger (h3 ▸ rfl), hhigh⟩
  · exact between_iff.mpr ⟨hlow, hlarge (h4 ▸ rfl)⟩
  · exact hb

/-! ### One character -/

theorem decodeFrom_one (ha : a.toNat < 0x80) :
    decodeFrom index (a :: rest) =
      (decodeFrom (index + 1) rest).map (Char.ofNat a.toNat :: ·) := by
  rw [decodeFrom.eq_def]
  exact if_pos (UInt8.lt_iff_toNat_lt.mpr ha)

theorem decodeFrom_two (ha : 0xc2 ≤ a.toNat ∧ a.toNat ≤ 0xdf) (hb : isContinuation b = true) :
    decodeFrom index (a :: b :: rest) =
      (decodeFrom (index + 2) rest).map
        (Char.ofNat (a.toNat % 0x20 * 0x40 + payload b) :: ·) := by
  have hascii := not_ascii (a := a) (by omega)
  have htwo : (0xc2 ≤ a && a ≤ 0xdf) = true := between_iff.mpr ha
  rw [decodeFrom.eq_def]
  simp only [hascii, htwo, hb, if_true, if_false, Bool.not_true, Bool.false_eq_true]

theorem decodeFrom_three (ha : 0xe0 ≤ a.toNat ∧ a.toNat ≤ 0xef) (hb : isSecond a b = true)
    (hc : isContinuation c = true) :
    decodeFrom index (a :: b :: c :: rest) =
      (decodeFrom (index + 3) rest).map
        (Char.ofNat (a.toNat % 0x10 * 0x1000 + payload b * 0x40 + payload c) :: ·) := by
  have hascii := not_ascii (a := a) (by omega)
  have htwo : ¬ (0xc2 ≤ a && a ≤ 0xdf) = true := not_between_of_lt ha.1
  have hthree : (0xe0 ≤ a && a ≤ 0xef) = true := between_iff.mpr ha
  rw [decodeFrom.eq_def]
  simp only [hascii, htwo, hthree, hb, hc, if_true, if_false, Bool.not_true, Bool.false_eq_true]

theorem decodeFrom_four (ha : 0xf0 ≤ a.toNat ∧ a.toNat ≤ 0xf4) (hb : isSecond a b = true)
    (hc : isContinuation c = true) (hd : isContinuation d = true) :
    decodeFrom index (a :: b :: c :: d :: rest) =
      (decodeFrom (index + 4) rest).map
        (Char.ofNat (a.toNat % 0x8 * 0x40000 + payload b * 0x1000 + payload c * 0x40
          + payload d) :: ·) := by
  have hascii := not_ascii (a := a) (by omega)
  have htwo : ¬ (0xc2 ≤ a && a ≤ 0xdf) = true :=
    not_between_of_lt (Nat.lt_of_lt_of_le (by decide) ha.1)
  have hthree : ¬ (0xe0 ≤ a && a ≤ 0xef) = true := not_between_of_lt ha.1
  have hfour : (0xf0 ≤ a && a ≤ 0xf4) = true := between_iff.mpr ha
  rw [decodeFrom.eq_def]
  simp only [hascii, htwo, hthree, hfour, hb, hc, hd, if_true, if_false, Bool.not_true,
    Bool.false_eq_true]

/-- The number of a character is not one of a surrogate and not too large. -/
theorem toNat_cases (c : Char) : c.toNat < 0xd800 ∨ 0xdfff < c.toNat ∧ c.toNat < 0x110000 :=
  c.valid

/-- The octets of a character in front of those of a text are read as the character in front of the
text. -/
theorem decodeFrom_encodeChar (c : Char) (h : ∀ index, decodeFrom index rest = .ok text) :
    decodeFrom index (encodeChar c ++ rest) = .ok (c :: text) := by
  -- By the number of octets; in each case the bits that they carry make up the number again.
  have hnumber : ∀ {n}, n = c.toNat → Char.ofNat n = c := by
    rintro _ rfl
    exact Char.ofNat_toNat c
  have hvalid := toNat_cases c
  rw [encodeChar]
  split_ifs with h1 h2 h3
  · have ha := toNat_ofNat_of_lt (n := c.toNat) (by omega)
    rw [List.singleton_append, decodeFrom_one (by omega), h, ha, hnumber rfl]
    rfl
  · have ha := toNat_ofNat_of_lt (n := 0xc0 + c.toNat / 0x40) (by omega)
    have hb := isContinuation_continuation c.toNat
    rw [List.cons_append, List.singleton_append, decodeFrom_two (by omega) hb, h, ha,
      payload_continuation, hnumber (by omega)]
    rfl
  · have ha := toNat_ofNat_of_lt (n := 0xe0 + c.toNat / 0x1000) (by omega)
    have hb : isSecond (UInt8.ofNat (0xe0 + c.toNat / 0x1000)) (continuation (c.toNat / 0x40)) =
        true := by
      apply isSecond_of_bounds (isContinuation_continuation _)
      all_goals
        rw [ha, toNat_continuation]
        omega
    have hc := isContinuation_continuation c.toNat
    rw [List.cons_append, List.cons_append, List.singleton_append,
      decodeFrom_three (by omega) hb hc, h, ha, payload_continuation, payload_continuation,
      hnumber (by omega)]
    rfl
  · have ha := toNat_ofNat_of_lt (n := 0xf0 + c.toNat / 0x40000) (by omega)
    have hb : isSecond (UInt8.ofNat (0xf0 + c.toNat / 0x40000)) (continuation (c.toNat / 0x1000)) =
        true := by
      apply isSecond_of_bounds (isContinuation_continuation _)
      all_goals
        rw [ha, toNat_continuation]
        omega
    have hc := isContinuation_continuation (c.toNat / 0x40)
    have hd := isContinuation_continuation c.toNat
    rw [List.cons_append, List.cons_append, List.cons_append, List.singleton_append,
      decodeFrom_four (by omega) hb hc hd, h, ha, payload_continuation, payload_continuation,
      payload_continuation, hnumber (by omega)]
    rfl

/-! ### Octets of one character -/

/-- The second octet of a character continues it. After four first octets it comes from a part of
the range only. -/
theorem bounds_of_isSecond (h : isSecond a b = true) : (0x80 ≤ b.toNat ∧ b.toNat ≤ 0xbf) ∧
    (a.toNat = 0xe0 → 0xa0 ≤ b.toNat) ∧ (a.toNat = 0xed → b.toNat ≤ 0x9f) ∧
    (a.toNat = 0xf0 → 0x90 ≤ b.toNat) ∧ (a.toNat = 0xf4 → b.toNat ≤ 0x8f) := by
  have hne : ∀ {x : UInt8}, a ≠ x → a.toNat ≠ x.toNat := fun h heq => h (UInt8.toNat_inj.mp heq)
  rw [isSecond] at h
  split_ifs at h with h1 h2 h3 h4
  · subst h1
    have hb := between_iff.mp h
    simp only [UInt8.reduceToNat] at hb ⊢
    omega
  · subst h2
    have hb := between_iff.mp h
    simp only [UInt8.reduceToNat] at hb ⊢
    omega
  · subst h3
    have hb := between_iff.mp h
    simp only [UInt8.reduceToNat] at hb ⊢
    omega
  · subst h4
    have hb := between_iff.mp h
    simp only [UInt8.reduceToNat] at hb ⊢
    omega
  · have hb := isContinuation_iff.mp h
    have h1 := hne h1
    have h2 := hne h2
    have h3 := hne h3
    have h4 := hne h4
    simp only [UInt8.reduceToNat] at h1 h2 h3 h4
    omega

theorem toNat_charOfNat (h : n < 0xd800 ∨ 0xdfff < n ∧ n < 0x110000) :
    (Char.ofNat n).toNat = n := by
  rw [Char.ofNat, dif_pos h]
  rfl

theorem ofNat_eq (h : a.toNat = n) : UInt8.ofNat n = a := by
  rw [← h, UInt8.ofNat_toNat]

theorem continuation_eq (hb : 0x80 ≤ b.toNat ∧ b.toNat ≤ 0xbf) (h : payload b = n % 0x40) :
    continuation n = b := by
  refine ofNat_eq ?_
  rw [payload] at h
  omega

theorem encodeChar_one (ha : a.toNat < 0x80) : encodeChar (Char.ofNat a.toNat) = [a] := by
  rw [encodeChar, toNat_charOfNat (by omega), if_pos ha, UInt8.ofNat_toNat]

theorem encodeChar_two (ha : 0xc2 ≤ a.toNat ∧ a.toNat ≤ 0xdf) (hb : isContinuation b = true) :
    encodeChar (Char.ofNat (a.toNat % 0x20 * 0x40 + payload b)) = [a, b] := by
  have hb := isContinuation_iff.mp hb
  have hpayload : payload b = b.toNat % 0x40 := rfl
  rw [encodeChar, toNat_charOfNat (by omega), if_neg (by omega), if_pos (by omega),
    ofNat_eq (a := a) (by omega), continuation_eq hb (by omega)]

theorem encodeChar_three (ha : 0xe0 ≤ a.toNat ∧ a.toNat ≤ 0xef) (hb : isSecond a b = true)
    (hc : isContinuation c = true) :
    encodeChar (Char.ofNat (a.toNat % 0x10 * 0x1000 + payload b * 0x40 + payload c)) =
      [a, b, c] := by
  obtain ⟨hb, hlong, hsurrogate, -, -⟩ := bounds_of_isSecond hb
  have hc := isContinuation_iff.mp hc
  have hpb : payload b = b.toNat % 0x40 := rfl
  have hpc : payload c = c.toNat % 0x40 := rfl
  rw [encodeChar, toNat_charOfNat (by omega), if_neg (by omega), if_neg (by omega),
    if_pos (by omega), ofNat_eq (a := a) (by omega), continuation_eq hb (by omega),
    continuation_eq hc (by omega)]

theorem encodeChar_four (ha : 0xf0 ≤ a.toNat ∧ a.toNat ≤ 0xf4) (hb : isSecond a b = true)
    (hc : isContinuation c = true) (hd : isContinuation d = true) :
    encodeChar (Char.ofNat (a.toNat % 0x8 * 0x40000 + payload b * 0x1000 + payload c * 0x40
      + payload d)) = [a, b, c, d] := by
  obtain ⟨hb, -, -, hlonger, hlarge⟩ := bounds_of_isSecond hb
  have hc := isContinuation_iff.mp hc
  have hd := isContinuation_iff.mp hd
  have hpb : payload b = b.toNat % 0x40 := rfl
  have hpc : payload c = c.toNat % 0x40 := rfl
  have hpd : payload d = d.toNat % 0x40 := rfl
  rw [encodeChar, toNat_charOfNat (by omega), if_neg (by omega), if_neg (by omega),
    if_neg (by omega), ofNat_eq (a := a) (by omega), continuation_eq hb (by omega),
    continuation_eq hc (by omega), continuation_eq hd (by omega)]

/-! ### Texts -/

/-- The octets of a text spell it. -/
theorem decode_encode (text : List Char) : decode (encode text) = .ok text := by
  have hread : ∀ index, decodeFrom index (encode text) = .ok text := by
    induction text with
    | nil => exact fun _ => rfl
    | cons c text ih =>
      intro index
      rw [encode, List.flatMap_cons]
      exact decodeFrom_encodeChar c ih
  exact hread 0

/-- Octets that are read as a text are those of its characters, one after the other. -/
theorem eq_encode_of_decodeFrom (h : decodeFrom index octets = .ok text) :
    octets = encode text := by
  fun_induction decodeFrom index octets generalizing text with
  | case1 =>
    cases h
    rfl
  | case2 index a rest ha ih =>
    obtain ⟨text, hrest, rfl⟩ := exists_of_map_eq_ok h
    rw [encode, List.flatMap_cons, encodeChar_one (UInt8.lt_iff_toNat_lt.mp ha), ih hrest]
    rfl
  | case5 index a _ ha b rest hb ih =>
    obtain ⟨text, hrest, rfl⟩ := exists_of_map_eq_ok h
    rw [encode, List.flatMap_cons, encodeChar_two (between_iff.mp ha) (by simpa using hb), ih hrest]
    rfl
  | case11 index a _ _ ha b c rest hb hc ih =>
    obtain ⟨text, hrest, rfl⟩ := exists_of_map_eq_ok h
    rw [encode, List.flatMap_cons, encodeChar_three (between_iff.mp ha) (by simpa using hb)
      (by simpa using hc), ih hrest]
    rfl
  | case21 index a _ _ _ ha b c d rest hb hc hd ih =>
    obtain ⟨text, hrest, rfl⟩ := exists_of_map_eq_ok h
    rw [encode, List.flatMap_cons, encodeChar_four (between_iff.mp ha) (by simpa using hb)
      (by simpa using hc) (by simpa using hd), ih hrest]
    rfl
  | _ => cases h

/-- The octets that are read as a text are those that spell it. -/
theorem decode_eq_ok_iff : decode octets = .ok text ↔ octets = encode text := by
  refine ⟨eq_encode_of_decodeFrom, ?_⟩
  rintro rfl
  exact decode_encode text

/-- Octets of which the first is past ASCII spell a text that begins with a character past ASCII, if
they spell one. -/
theorem le_toNat_of_decode (ha : 0x80 ≤ a.toNat) (h : decode (a :: rest) = .ok text) :
    ∃ c text', text = c :: text' ∧ 0x80 ≤ c.toNat := by
  rw [decode_eq_ok_iff] at h
  cases text with
  | nil => cases h
  | cons c text' =>
    refine ⟨c, text', rfl, ?_⟩
    by_contra hc
    rw [encode, List.flatMap_cons, encodeChar, if_pos (Nat.not_le.mp hc),
      List.singleton_append] at h
    obtain ⟨rfl, -⟩ := List.cons.inj h
    rw [toNat_ofNat_of_lt (by omega)] at ha
    exact hc ha

end LiveTuner.Utf8
