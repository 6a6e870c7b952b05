import LiveTuner.Json.Reader
import LiveTuner.Proofs.Text.Words

/-!
# Numbers among white space

A number is read up to the first character that is no part of it, and no white space is part of a
number. So it is read of a squeezed text as it is of the text, and what is left is left squeezed.
The same holds for the words that stand for values.

## Main definitions

* `Json.isTextless` — no text is in a value
* `Json.ReadsAlike` — of a squeezed text the same value is read as of the text

## Main results

* `Json.readNumber_squeezed`, `Json.readWord_squeezed` — squeezing does not change what is read
-/

namespace LiveTuner.Json

variable {c : Char} {t t' rest : List Char} {v : Json} {negative : Bool} {significand : Nat}
  {reading : Reading Json}

/-! ### Values without texts -/

mutual

/-- The value holds no text. Keys are texts, so no object does. -/
def isTextless : Json → Bool
  | string _ | object _ => false
  | array items => areTextless items
  | null | bool _ | integer _ | real _ => true

/-- No value holds a text. -/
def areTextless : List Json → Bool
  | [] => true
  | v :: rest => isTextless v && areTextless rest

end

theorem areTextless_eq_true_iff {items : List Json} :
    areTextless items = true ↔ ∀ v ∈ items, v.isTextless = true := by
  induction items with
  | nil => simp [areTextless]
  | cons v rest ih => simp [areTextless, ih]

/-! ### Numbers -/

/-- A digit is no white space. -/
theorem isBlank_of_digitValue? {n : Nat} (h : digitValue? c = some n) : isBlank c = false := by
  unfold digitValue? at h
  split at h
  · next hdigit =>
    exact isBlank_eq_false_of_between (by decide) (by decide) hdigit
  · cases h

theorem digitValue?_of_isBlank (h : isBlank c = true) : digitValue? c = none := by
  cases hd : digitValue? c with
  | none => rfl
  | some n =>
    rw [isBlank_of_digitValue? hd] at h
    cases h

/-- No digit is at the start of a text where no word goes on. -/
theorem countDigits_of_isBreak (h : isBreak t = true) : countDigits t = (0, t) := by
  cases t with
  | nil => rfl
  | cons c t => simp [countDigits, digitValue?_of_isBlank h]

theorem absorb_of_isBreak (h : isBreak t = true) (n : Nat) : absorb n t = (n, 0, t) := by
  cases t with
  | nil => rfl
  | cons c t => simp [absorb, digitValue?_of_isBlank h]

theorem exponentDigits_of_isBreak (h : isBreak t = true) (n : Nat) :
    exponentDigits n t = .ok (n, t) := by
  cases t with
  | nil => rfl
  | cons c t => simp [exponentDigits, digitValue?_of_isBlank h]

theorem length_countDigits_le (t : List Char) : (countDigits t).2.length ≤ t.length := by
  induction t with
  | nil => rfl
  | cons c t ih =>
    simp only [countDigits]
    split
    · exact ih.trans (Nat.le_succ _)
    · rfl

theorem length_absorb_le (n : Nat) (t : List Char) : (absorb n t).2.2.length ≤ t.length := by
  induction t generalizing n with
  | nil => rfl
  | cons c t ih =>
    simp only [absorb]
    split
    · rfl
    · split
      · exact (ih _).trans (Nat.le_succ _)
      · rfl

theorem length_exponentDigits_le {n m : Nat} {t rest : List Char}
    (h : exponentDigits n t = .ok (m, rest) ∨ exponentDigits n t = .error rest) :
    rest.length ≤ t.length := by
  induction t generalizing n with
  | nil =>
    rcases h with h | h
    · cases h; rfl
    · cases h
  | cons c t ih =>
    simp only [exponentDigits] at h
    split at h
    · rcases h with h | h
      · cases h; rfl
      · cases h
    · split at h
      · exact (ih h).trans (Nat.le_succ _)
      · rcases h with h | h
        · cases h
        · cases h; exact Nat.le_succ _

theorem countDigits_squeezed (t : List Char) :
    countDigits (squeezed t) = ((countDigits t).1, squeezed (countDigits t).2) := by
  induction t with
  | nil => rfl
  | cons c t ih =>
    cases hc : isBlank c with
    | true =>
      have hbreak : isBreak (c :: t) = true := hc
      rw [countDigits_of_isBreak hbreak, countDigits_of_isBreak (by rwa [isBreak_squeezed])]
    | false =>
      rw [squeezed_cons hc]
      simp only [countDigits, ih]
      split <;> simp [squeezed_cons hc]

theorem absorb_squeezed (n : Nat) (t : List Char) :
    absorb n (squeezed t) = ((absorb n t).1, (absorb n t).2.1, squeezed (absorb n t).2.2) := by
  induction t generalizing n with
  | nil => rfl
  | cons c t ih =>
    cases hc : isBlank c with
    | true =>
      have hbreak : isBreak (c :: t) = true := hc
      rw [absorb_of_isBreak hbreak, absorb_of_isBreak (by rwa [isBreak_squeezed])]
    | false =>
      rw [squeezed_cons hc]
      simp only [absorb]
      split
      · simp [squeezed_cons hc]
      · simp only [ih]
        split <;> simp [squeezed_cons hc]

theorem exponentDigits_squeezed (n : Nat) (t : List Char) :
    exponentDigits n (squeezed t) =
      ((exponentDigits n t).map (Prod.map id squeezed)).mapError squeezed := by
  induction t generalizing n with
  | nil => rfl
  | cons c t ih =>
    cases hc : isBlank c with
    | true =>
      have hbreak : isBreak (c :: t) = true := hc
      rw [exponentDigits_of_isBreak hbreak,
        exponentDigits_of_isBreak (by rwa [isBreak_squeezed])]
      rfl
    | false =>
      rw [squeezed_cons hc]
      simp only [exponentDigits]
      split
      · simp [squeezed_cons hc, Except.map, Except.mapError]
      · split
        · exact ih _
        · rfl

/-- A value without texts was read of the text `t` up to `rest`. The reading is what comes of the
squeezed text: the same, up to the squeezed rest. -/
structure ReadsAlike (t : List Char) (v : Json) (rest : List Char) (reading : Reading Json) :
    Prop where
  /-- The same value is read. -/
  eq_ok : reading = .ok (v, squeezed rest)
  /-- Nothing is put back. -/
  length_le : rest.length ≤ t.length
  /-- No text is in the value. -/
  isTextless : v.isTextless = true

/-- Something may stand in front of what was read. -/
theorem ReadsAlike.of_length_le (h : ReadsAlike t v rest reading) (hle : t.length ≤ t'.length) :
    ReadsAlike t' v rest reading :=
  ⟨h.eq_ok, h.length_le.trans hle, h.isTextless⟩

theorem ReadsAlike.cons (h : ReadsAlike t v rest reading) (c : Char) :
    ReadsAlike (c :: t) v rest reading :=
  h.of_length_le (Nat.le_succ _)

theorem isTextless_ofReal (x : Binary64) : (ofReal x).isTextless = true := by
  unfold ofReal
  split <;> rfl

theorem isTextless_signedInteger (negative : Bool) (n : Nat) :
    (signedInteger negative n).isTextless = true := by
  unfold signedInteger
  split
  · split
    · rfl
    · exact isTextless_ofReal _
  · split
    · rfl
    · exact isTextless_ofReal _

theorem scaled_squeezed {exponent : Int}
    (h : scaled negative significand exponent t = .ok (v, rest)) :
    ReadsAlike t v rest (scaled negative significand exponent (squeezed t)) := by
  unfold scaled at h ⊢
  split at h
  · cases h
    exact ⟨rfl, le_rfl, isTextless_ofReal _⟩
  · cases h

/-- Reads the digits of an exponent after its sign. -/
def readExponentDigits (negative : Bool) (significand : Nat) (exponent : Int) (down : Bool)
    (text : List Char) : Reading Json :=
  match text with
  | [] => stop .endInValue []
  | c :: rest =>
    match digitValue? c with
    | none => stopAt .invalidNumber (c :: rest)
    | some d =>
      match exponentDigits d rest with
      | .ok (n, rest) =>
        scaled negative significand (if down then exponent - n else exponent + n) rest
      | .error rest =>
        if significand ≠ 0 ∧ down = false then stop .numberOutOfRange rest
        else .ok (signed negative .zero, (countDigits rest).2)

theorem isBreak_of_readExponentDigits {exponent : Int} {down : Bool}
    (h : readExponentDigits negative significand exponent down t = .ok (v, rest)) :
    isBreak t = false := by
  cases t with
  | nil => cases h
  | cons c t =>
    by_contra hc
    simp only [Bool.not_eq_false] at hc
    simp [readExponentDigits, digitValue?_of_isBlank hc, stopAt] at h

theorem readExponentDigits_squeezed {exponent : Int} {down : Bool}
    (h : readExponentDigits negative significand exponent down t = .ok (v, rest)) :
    ReadsAlike t v rest
      (readExponentDigits negative significand exponent down (squeezed t)) := by
  cases t with
  | nil => cases h
  | cons c t =>
    rw [squeezed_cons (isBreak_of_readExponentDigits h)]
    refine ReadsAlike.cons ?_ c
    simp only [readExponentDigits, exponentDigits_squeezed] at h ⊢
    cases hd : digitValue? c with
    | none => simp [hd, stopAt] at h
    | some d =>
      simp only [hd] at h ⊢
      cases hn : exponentDigits d t with
      | ok p =>
        simp only [hn, Except.map, Except.mapError, Prod.map] at h ⊢
        exact (scaled_squeezed h).of_length_le (length_exponentDigits_le (Or.inl hn))
      | error r =>
        simp only [hn, Except.map, Except.mapError] at h ⊢
        split at h
        · cases h
        · next hzero =>
          -- The exponent is too large to be held, the number is zero, and further digits are lost.
          cases h
          rw [if_neg hzero, countDigits_squeezed]
          have hle := length_exponentDigits_le (m := 0) (Or.inr hn)
          exact ⟨rfl, (length_countDigits_le r).trans hle, isTextless_ofReal _⟩

theorem readExponentPart_cons (hplus : c ≠ '+') (hminus : c ≠ '-') (exponent : Int) :
    readExponentPart negative significand exponent (c :: t) =
      readExponentDigits negative significand exponent false (c :: t) := by
  unfold readExponentPart
  split
  rename_i heq
  split at heq
  · next h => exact absurd (List.cons.inj h).1 hplus
  · next h => exact absurd (List.cons.inj h).1 hminus
  · obtain ⟨rfl, rfl⟩ := Prod.mk.inj heq
    rfl

theorem readExponentPart_squeezed {exponent : Int}
    (h : readExponentPart negative significand exponent t = .ok (v, rest)) :
    ReadsAlike t v rest (readExponentPart negative significand exponent (squeezed t)) := by
  cases t with
  | nil => cases h
  | cons c t =>
    by_cases hsign : c = '+' ∨ c = '-'
    · -- Either sign only decides which way the exponent goes.
      have htail : ∃ down, ∀ t, readExponentPart negative significand exponent (c :: t) =
          readExponentDigits negative significand exponent down t := by
        rcases hsign with rfl | rfl
        · exact ⟨false, fun _ => rfl⟩
        · exact ⟨true, fun _ => rfl⟩
      have hc : isBlank c = false := by rcases hsign with rfl | rfl <;> rfl
      obtain ⟨down, htail⟩ := htail
      rw [htail] at h
      rw [squeezed_cons hc, htail]
      exact (readExponentDigits_squeezed h).cons c
    · rw [not_or] at hsign
      rw [readExponentPart_cons hsign.1 hsign.2] at h
      have hsqueezed := readExponentDigits_squeezed h
      rw [squeezed_cons (isBreak_of_readExponentDigits h)] at hsqueezed ⊢
      rwa [readExponentPart_cons hsign.1 hsign.2]

/-- Reads an exponent if there is one; the number is complete as `plain` otherwise. -/
def readExponent? (negative : Bool) (significand : Nat) (exponent : Int) (plain : Reading Json)
    (text : List Char) : Reading Json :=
  match text with
  | 'e' :: rest => readExponentPart negative significand exponent rest
  | 'E' :: rest => readExponentPart negative significand exponent rest
  | _ => plain

theorem readExponent?_cons {exponent : Int} {plain : Reading Json} (he : c ≠ 'e') (hE : c ≠ 'E') :
    readExponent? negative significand exponent plain (c :: t) = plain := by
  simp [readExponent?, he, hE]

theorem readExponent?_of_isBreak {exponent : Int} {plain : Reading Json} (h : isBreak t = true) :
    readExponent? negative significand exponent plain t = plain := by
  cases t with
  | nil => rfl
  | cons c t =>
    have hc : isBlank c = true := h
    exact readExponent?_cons (by rintro rfl; cases hc) (by rintro rfl; cases hc)

theorem readExponent?_squeezed {exponent : Int} {plain plain' : Reading Json}
    (h : readExponent? negative significand exponent plain t = .ok (v, rest))
    (hplain : plain = .ok (v, rest) → ReadsAlike t v rest plain') :
    ReadsAlike t v rest
      (readExponent? negative significand exponent plain' (squeezed t)) := by
  cases hbreak : isBreak t with
  | true =>
    -- The number ends here, in the squeezed text as well.
    rw [readExponent?_of_isBreak hbreak] at h
    rw [readExponent?_of_isBreak (by rwa [isBreak_squeezed])]
    exact hplain h
  | false =>
    cases t with
    | nil => cases hbreak
    | cons c t =>
      rw [squeezed_cons hbreak]
      by_cases he : c = 'e' ∨ c = 'E'
      · have htail : ∀ plain t, readExponent? negative significand exponent plain (c :: t) =
            readExponentPart negative significand exponent t := by
          rcases he with rfl | rfl <;> exact fun _ _ => rfl
        rw [htail] at h ⊢
        exact (readExponentPart_squeezed h).cons c
      · rw [not_or] at he
        rw [readExponent?_cons he.1 he.2] at h ⊢
        exact hplain h

theorem readFraction_eq (exponent : Int) (t : List Char) :
    readFraction negative significand exponent t =
      let (result, taken, later) := absorb significand t
      let (ignored, later) := countDigits later
      if taken + ignored = 0 then
        if later.isEmpty then stop .endInValue [] else stopAt .invalidNumber later
      else readExponent? negative result (exponent - taken)
        (scaled negative result (exponent - taken) later) later := by
  unfold readFraction readExponent?
  dsimp only
  split
  · rfl
  · generalize (countDigits (absorb significand t).2.2).2 = later
    split <;> simp

theorem readFraction_squeezed {exponent : Int}
    (h : readFraction negative significand exponent t = .ok (v, rest)) :
    ReadsAlike t v rest (readFraction negative significand exponent (squeezed t)) := by
  rw [readFraction_eq] at h ⊢
  simp only [absorb_squeezed, countDigits_squeezed] at h ⊢
  split at h
  · split at h <;> cases h
  · next htaken =>
    rw [if_neg htaken]
    exact (readExponent?_squeezed h scaled_squeezed).of_length_le
      ((length_countDigits_le _).trans (length_absorb_le _ _))

theorem readAfterWhole_eq (ignored : Nat) (h : ∀ later, t ≠ '.' :: later) :
    readAfterWhole negative significand ignored t =
      readExponent? negative significand ignored
        (if ignored = 0 then .ok (signedInteger negative significand, t)
          else scaled negative significand ignored t) t := by
  unfold readAfterWhole readExponent?
  split
  · exact absurd rfl (h _)
  · rfl
  · rfl
  · next he hE => simp

theorem readAfterWhole_squeezed {ignored : Nat}
    (h : readAfterWhole negative significand ignored t = .ok (v, rest)) :
    ReadsAlike t v rest (readAfterWhole negative significand ignored (squeezed t)) := by
  by_cases hpoint : ∃ later, t = '.' :: later
  · obtain ⟨later, rfl⟩ := hpoint
    rw [squeezed_cons rfl]
    exact (readFraction_squeezed h).cons '.'
  · -- Squeezing does not bring a point to the front.
    have hpoint' : ∀ later, squeezed t ≠ '.' :: later := fun later hlater =>
      hpoint (eq_cons_of_squeezed rfl hlater)
    rw [readAfterWhole_eq ignored fun later ht => hpoint ⟨later, ht⟩] at h
    rw [readAfterWhole_eq ignored hpoint']
    refine readExponent?_squeezed h fun hplain => ?_
    split at hplain
    · cases hplain
      exact ⟨by simp [*], le_rfl, isTextless_signedInteger _ _⟩
    · next hne =>
      rw [if_neg hne]
      exact scaled_squeezed hplain

/-- A number is read of the squeezed text as it is of the text. It has a character. -/
theorem readNumber_squeezed (h : readNumber negative t = .ok (v, rest)) :
    readNumber negative (squeezed t) = .ok (v, squeezed rest) ∧ rest.length < t.length ∧
      v.isTextless = true := by
  cases t with
  | nil => cases h
  | cons c t =>
    have halike : ReadsAlike t v rest (readNumber negative (squeezed (c :: t))) := by
      cases hd : digitValue? c with
      | none => simp [readNumber, hd, stopAt] at h
      | some d =>
        rw [squeezed_cons (isBlank_of_digitValue? hd)]
        simp only [readNumber, hd, countDigits_squeezed, absorb_squeezed] at h ⊢
        split at h
        · next heq => cases heq
        · split at h
          · next heq hzero =>
            rw [if_pos hzero]
            exact readAfterWhole_squeezed h
          · cases h
        · exact (readAfterWhole_squeezed h).of_length_le
            ((length_countDigits_le _).trans (length_absorb_le _ _))
    exact ⟨halike.eq_ok, Nat.lt_succ_of_le halike.length_le, halike.isTextless⟩

/-! ### Words -/

/-- A word is read of the squeezed text as it is of the text. -/
theorem readWord_squeezed {α : Type} {value v : α} {word t rest : List Char}
    (hword : ∀ c ∈ word, isBlank c = false) (h : readWord value word t = .ok (v, rest)) :
    readWord value word (squeezed t) = .ok (v, squeezed rest) ∧ rest.length ≤ t.length ∧
      v = value := by
  induction word generalizing t with
  | nil =>
    cases h
    exact ⟨rfl, le_rfl, rfl⟩
  | cons w word ih =>
    obtain ⟨hw, hlater⟩ := List.forall_mem_cons.mp hword
    cases t with
    | nil => cases h
    | cons c t =>
      rw [readWord] at h
      split at h
      · next hc =>
        subst hc
        rw [squeezed_cons hw, readWord, if_pos rfl]
        exact (ih hlater h).imp_right (.imp_left (·.trans (Nat.le_succ _)))
      · cases h

end LiveTuner.Json
