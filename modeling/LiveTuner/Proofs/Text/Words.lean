import LiveTuner.Text.Blank
import Mathlib.Data.List.DropRight

/-!
# White space between words

The words of a text forget how much white space stands between them, and of which kind. A text that
is put together from its words again has lone blanks where there was white space before, and none
around it. This file gives that text directly, by one walk over the characters, so that it can be
followed through a reader.

## Main definitions

* `squeezed` — a text with each run of white space as one blank, and none at its end
* `LoneBlanks` — all white space in a text is lone blanks between other characters
* `trimmed` — a text without the white space around it

## Main results

* `squeezed_eq_leadingPiece` — a squeezed text is its words with a blank in front of each
* `squeezed_eq_self_iff` — squeezing changes a text unless its white space is lone blanks
* `words_append` — a word in front of white space is the first one
-/

namespace LiveTuner

variable {c : Char} {t u w : List Char}

/-- No word goes on here: the text ends, or white space is next. -/
def isBreak : List Char → Bool
  | [] => true
  | c :: _ => isBlank c

/-- The text with one blank for each run of white space, and none at its end. -/
def squeezed : List Char → List Char
  | [] => []
  | c :: rest =>
    if isBlank c then if isBreak rest then squeezed rest else ' ' :: squeezed rest
    else c :: squeezed rest

/-- All white space in the text is lone blanks, and none is at its end. -/
def LoneBlanks : List Char → Prop
  | [] => True
  | c :: rest => (isBlank c = true → c = ' ' ∧ isBreak rest = false) ∧ LoneBlanks rest

/-- The text without the white space around it. -/
def trimmed (text : List Char) : List Char := (text.dropWhile isBlank).rdropWhile isBlank

/-- No character with a picture in ASCII is white space. -/
theorem isBlank_eq_false_of_le (hlower : '!' ≤ c) (hupper : c ≤ '~') : isBlank c = false := by
  have h₀ : ('!' : Char).val.toNat = 33 := rfl
  have h₁ : ('~' : Char).val.toNat = 126 := rfl
  have hc : c.toNat = c.val.toNat := rfl
  simp only [Char.le_def, UInt32.le_iff_toNat_le] at hlower hupper
  by_contra h
  simp only [isBlank, Bool.not_eq_false, Bool.or_eq_true, Bool.and_eq_true, decide_eq_true_eq,
    beq_iff_eq, hc] at h
  omega

theorem isBlank_eq_false_of_between {lo hi : Char} (hlo : '!' ≤ lo) (hhi : hi ≤ '~')
    (h : lo ≤ c ∧ c ≤ hi) : isBlank c = false :=
  isBlank_eq_false_of_le (Char.le_trans hlo h.1) (Char.le_trans h.2 hhi)

/-! ### Squeezing -/

@[simp] theorem squeezed_nil : squeezed [] = [] := rfl

theorem squeezed_cons (h : isBlank c = false) : squeezed (c :: t) = c :: squeezed t := by
  simp [squeezed, h]

theorem squeezed_cons_of_isBreak (h : isBlank c = true) (ht : isBreak t = true) :
    squeezed (c :: t) = squeezed t := by
  simp [squeezed, h, ht]

theorem squeezed_cons_of_isBlank (h : isBlank c = true) (ht : isBreak t = false) :
    squeezed (c :: t) = ' ' :: squeezed t := by
  simp [squeezed, h, ht]

/-- What stands within a word stays. -/
theorem squeezed_append (h : ∀ c ∈ w, isBlank c = false) (t : List Char) :
    squeezed (w ++ t) = w ++ squeezed t := by
  induction w with
  | nil => rfl
  | cons c w ih =>
    obtain ⟨hc, hw⟩ := List.forall_mem_cons.mp h
    rw [List.cons_append, squeezed_cons hc, ih hw, List.cons_append]

/-- White space at the end does not change where words go on. -/
theorem isBreak_append_blanks (h : ∀ c ∈ u, isBlank c = true) (t : List Char) :
    isBreak (t ++ u) = isBreak t := by
  cases t with
  | cons d t => rfl
  | nil =>
    cases u with
    | nil => rfl
    | cons d u => exact h d List.mem_cons_self

/-- White space at the end is lost. -/
theorem squeezed_append_blanks (h : ∀ c ∈ u, isBlank c = true) (t : List Char) :
    squeezed (t ++ u) = squeezed t := by
  induction t with
  | cons c t ih => simp only [List.cons_append, squeezed, isBreak_append_blanks h, ih]
  | nil =>
    induction u with
    | nil => rfl
    | cons c u ih =>
      obtain ⟨hc, hu⟩ := List.forall_mem_cons.mp h
      exact (squeezed_cons_of_isBreak hc (isBreak_append_blanks hu [])).trans (ih hu)

/-- Squeezing keeps where words go on. -/
@[simp] theorem isBreak_squeezed (t : List Char) : isBreak (squeezed t) = isBreak t := by
  induction t with
  | nil => rfl
  | cons c t ih =>
    cases hc : isBlank c with
    | false => simp [squeezed_cons hc, isBreak]
    | true =>
      cases ht : isBreak t with
      | true => rw [squeezed_cons_of_isBreak hc ht, ih, ht, isBreak, hc]
      | false => rw [squeezed_cons_of_isBlank hc ht, isBreak, isBreak, hc]; rfl

/-- A squeezed text within a word begins as the text does. -/
theorem eq_cons_of_squeezed (hc : isBlank c = false) (h : squeezed t = c :: u) :
    ∃ rest, t = c :: rest := by
  have hbreak : isBreak t = false := by rw [← isBreak_squeezed, h]; exact hc
  cases t with
  | nil => cases hbreak
  | cons d rest =>
    rw [squeezed_cons hbreak] at h
    exact ⟨rest, congrArg (· :: rest) (List.cons.inj h).1⟩

theorem length_squeezed_le (t : List Char) : (squeezed t).length ≤ t.length := by
  induction t with
  | nil => rfl
  | cons c t ih =>
    simp only [squeezed, List.length_cons]
    split
    · split
      · omega
      · simpa using ih
    · simpa using ih

/-- Squeezing changes a text unless its white space is lone blanks. -/
theorem squeezed_eq_self_iff : squeezed t = t ↔ LoneBlanks t := by
  induction t with
  | nil => simp [LoneBlanks]
  | cons c t ih =>
    cases hc : isBlank c with
    | false => simp [squeezed_cons hc, LoneBlanks, hc, ih]
    | true =>
      cases ht : isBreak t with
      | false =>
        simp only [squeezed_cons_of_isBlank hc ht, LoneBlanks, hc, ht, List.cons.injEq, ih]
        simp [eq_comm]
      | true =>
        -- A run of white space gets shorter.
        rw [squeezed_cons_of_isBreak hc ht]
        constructor
        · intro h
          have hlength := length_squeezed_le t
          rw [h, List.length_cons] at hlength
          omega
        · intro h
          have := (h.1 hc).2
          rw [ht] at this
          cases this

/-- What is dropped at the end may be left out. -/
theorem rdropWhile_append_of_forall {p : Char → Bool} (h : ∀ c ∈ u, p c = true) (t : List Char) :
    (t ++ u).rdropWhile p = t.rdropWhile p := by
  rw [List.rdropWhile, List.rdropWhile, List.reverse_append,
    List.dropWhile_append_of_pos (by simpa using h)]

/-! ### Words -/

/-- Between words, no word is begun. -/
theorem leadingPiece_fst_eq_nil_iff : (leadingPiece isBlank t).1 = [] ↔ isBreak t = true := by
  cases t with
  | nil => simp [leadingPiece, isBreak]
  | cons c t => cases hc : isBlank c <;> simp [leadingPiece, isBreak, hc]

/-- A squeezed text is what begins it and its further words, with a blank in front of each. -/
theorem squeezed_eq_leadingPiece (t : List Char) :
    squeezed t = (leadingPiece isBlank t).1 ++ (leadingPiece isBlank t).2.flatMap (' ' :: ·) := by
  induction t with
  | nil => rfl
  | cons c t ih =>
    cases hc : isBlank c with
    | false => simp [squeezed_cons hc, leadingPiece, hc, ih]
    | true =>
      cases ht : isBreak t with
      | true =>
        have hfirst := leadingPiece_fst_eq_nil_iff.mpr ht
        simp [squeezed_cons_of_isBreak hc ht, leadingPiece, hc, ih, hfirst]
      | false =>
        have hfirst : (leadingPiece isBlank t).1 ≠ [] := by
          simp [leadingPiece_fst_eq_nil_iff, ht]
        simp [squeezed_cons_of_isBlank hc ht, leadingPiece, hc, ih, hfirst]

/-- White space in front does not change the words. -/
theorem words_dropWhile (t : List Char) : words (t.dropWhile isBlank) = words t := by
  induction t with
  | nil => rfl
  | cons c t ih =>
    cases hc : isBlank c with
    | false => simp [hc]
    | true => rw [List.dropWhile_cons_of_pos hc, ih, words_cons_of_isBlank hc]

/-- A word in front of white space is the first one. -/
theorem words_append (hw : w ≠ []) (h : ∀ c ∈ w, isBlank c = false) (hu : isBreak u = true) :
    words (w ++ u) = w :: words u := by
  have hlead : ∀ w : List Char, (∀ c ∈ w, isBlank c = false) →
      leadingPiece isBlank (w ++ u) = (w, (leadingPiece isBlank u).2) := by
    intro w h
    induction w with
    | nil => exact Prod.ext (leadingPiece_fst_eq_nil_iff.mpr hu) rfl
    | cons c w ih =>
      obtain ⟨hc, hw⟩ := List.forall_mem_cons.mp h
      simp [leadingPiece, hc, ih hw]
  have hfirst := leadingPiece_fst_eq_nil_iff.mpr hu
  simp [words, pieces, hlead w h, hw, hfirst]

end LiveTuner
