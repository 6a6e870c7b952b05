import LiveTuner.Literal

/-!
# Integers read back

An integer that is written in decimal digits is read back. Its digits are taken from the front, so
every value on the way lies between zero and the integer itself and within the same bounds.

## Main results

* `readInt64_toString` — an integer of 64 bits is read back
-/

namespace LiveTuner

variable {lower upper : Int} {digits : List Char} {c : Char} {n : Nat}

theorem digitValue?_of_isDigit (h : c.isDigit = true) :
    digitValue? c = some (c.toNat - '0'.toNat) := by
  have hc : '0' ≤ c ∧ c ≤ '9' := by
    simpa [Char.isDigit, Char.le_def, UInt32.le_iff_toNat_le] using h
  simp [digitValue?, hc]

/-- Further digits make no natural number smaller. -/
theorem le_ofDigitChars (n : Nat) (digits : List Char) : n ≤ Nat.ofDigitChars 10 digits n := by
  induction digits generalizing n with
  | nil => exact Nat.le_refl _
  | cons c rest ih =>
    rw [Nat.ofDigitChars_cons]
    have hlater := ih (10 * n + (c.toNat - '0'.toNat))
    omega

theorem readDigits_of_le (hdigits : ∀ c ∈ digits, c.isDigit = true)
    (h : (Nat.ofDigitChars 10 digits n : Int) ≤ upper) :
    readDigits lower upper false n digits = .ok (Nat.ofDigitChars 10 digits n : Int) := by
  induction digits generalizing n with
  | nil => rfl
  | cons c rest ih =>
    obtain ⟨hc, hrest⟩ := List.forall_mem_cons.mp hdigits
    rw [Nat.ofDigitChars_cons] at h ⊢
    have hnext : ((10 * n + (c.toNat - '0'.toNat) : Nat) : Int) =
      (n : Int) * 10 + (c.toNat - '0'.toNat : Nat) := by push_cast; omega
    -- The whole number is no smaller than what has been read of it, so no check fails on the way.
    have hle := le_ofDigitChars (10 * n + (c.toNat - '0'.toNat)) rest
    simp only [readDigits, digitValue?_of_isDigit hc, Bool.false_eq_true, if_false]
    rw [← hnext, if_neg (by omega)]
    exact ih hrest h

theorem readDigits_of_ge (hdigits : ∀ c ∈ digits, c.isDigit = true)
    (h : lower ≤ -(Nat.ofDigitChars 10 digits n : Int)) :
    readDigits lower upper true (-(n : Int)) digits =
      .ok (-(Nat.ofDigitChars 10 digits n : Int)) := by
  induction digits generalizing n with
  | nil => rfl
  | cons c rest ih =>
    obtain ⟨hc, hrest⟩ := List.forall_mem_cons.mp hdigits
    rw [Nat.ofDigitChars_cons] at h ⊢
    have hnext : -((10 * n + (c.toNat - '0'.toNat) : Nat) : Int) =
      -(n : Int) * 10 - (c.toNat - '0'.toNat : Nat) := by push_cast; omega
    have hle := le_ofDigitChars (10 * n + (c.toNat - '0'.toNat)) rest
    simp only [readDigits, digitValue?_of_isDigit hc, if_true]
    rw [← hnext, if_neg (by omega)]
    exact ih hrest h

/-- A word of digits is read as a natural number. -/
theorem readInteger_digits (hdigits : ∀ c ∈ digits, c.isDigit = true) (hne : digits ≠ []) :
    readInteger lower upper digits = readDigits lower upper false 0 digits := by
  cases digits with
  | nil => exact absurd rfl hne
  | cons c rest =>
    have hc : c.isDigit = true := hdigits c List.mem_cons_self
    have hplus : c ≠ '+' := by rintro rfl; cases hc
    have hminus : c ≠ '-' := by rintro rfl; cases hc
    unfold readInteger
    split <;> simp_all

/-- A word of digits after a minus sign is read as an integer. -/
theorem readInteger_minus (hne : digits ≠ []) (hlower : lower < 0) :
    readInteger lower upper ('-' :: digits) = readDigits lower upper true 0 digits := by
  simp [readInteger, hlower]

/-- An integer in decimal digits. -/
theorem toList_toString (i : Int) :
    (toString i).toList =
      if i < 0 then '-' :: Nat.toDigits 10 i.natAbs else Nat.toDigits 10 i.natAbs := by
  rw [Int.toString_eq_repr]
  cases i with
  | ofNat n =>
    have h : ¬ (Int.ofNat n < 0) := by simp
    rw [if_neg h]
    simp [Int.repr]
  | negSucc n =>
    rw [if_pos (Int.negSucc_lt_zero n)]
    simp [Int.repr]

theorem toString_ne_nil (i : Int) : (toString i).toList ≠ [] := by
  rw [toList_toString]
  split
  · simp
  · exact Nat.toDigits_ne_nil

/-- An integer is written with digits and a minus sign. -/
theorem eq_minus_or_isDigit {i : Int} (h : c ∈ (toString i).toList) :
    c = '-' ∨ c.isDigit = true := by
  have hdigit : ∀ n, c ∈ Nat.toDigits 10 n → c.isDigit = true := fun _ hc =>
    Nat.isDigit_of_mem_toDigits (by decide) (by decide) hc
  rw [toList_toString] at h
  split at h
  · exact (List.mem_cons.mp h).imp_right (hdigit _)
  · exact Or.inr (hdigit _ h)

/-- An integer is read back from its decimal digits. -/
theorem readInt64_toString (n : Int64) : readInt64 (toString n.toInt).toList = .ok n := by
  have hdigits : ∀ c ∈ Nat.toDigits 10 n.toInt.natAbs, c.isDigit = true := fun c hc =>
    Nat.isDigit_of_mem_toDigits (by decide) (by decide) hc
  have hvalue : Nat.ofDigitChars 10 (Nat.toDigits 10 n.toInt.natAbs) 0 = n.toInt.natAbs :=
    Nat.ofDigitChars_toDigits (by decide) (by decide)
  have hlower : Int64.minValue.toInt ≤ n.toInt := n.le_toInt
  have hupper : n.toInt ≤ Int64.maxValue.toInt := Int.le_sub_one_of_lt n.toInt_lt
  have hread : readInteger Int64.minValue.toInt Int64.maxValue.toInt (toString n.toInt).toList =
      .ok n.toInt := by
    rw [toList_toString]
    split
    · next hneg =>
      have habs : -(n.toInt.natAbs : Int) = n.toInt := by omega
      have hge : Int64.minValue.toInt ≤
          -(Nat.ofDigitChars 10 (Nat.toDigits 10 n.toInt.natAbs) 0 : Int) := by
        rwa [hvalue, habs]
      rw [readInteger_minus Nat.toDigits_ne_nil (by decide)]
      exact (readDigits_of_ge hdigits hge).trans (by rw [hvalue, habs])
    · next hneg =>
      have habs : (n.toInt.natAbs : Int) = n.toInt := by omega
      have hle : (Nat.ofDigitChars 10 (Nat.toDigits 10 n.toInt.natAbs) 0 : Int) ≤
          Int64.maxValue.toInt := by
        rwa [hvalue, habs]
      rw [readInteger_digits hdigits Nat.toDigits_ne_nil]
      exact (readDigits_of_le hdigits hle).trans (by rw [hvalue, habs])
  rw [readInt64, hread]
  simp [Except.map]

end LiveTuner
