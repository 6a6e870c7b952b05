import LiveTuner.Json.Writer
import LiveTuner.Param.Id
import LiveTuner.Proofs.Literal
import LiveTuner.Readout
import LiveTuner.Text.Quoted
import Mathlib.Tactic.SplitIfs

/-!
# Texts on one line

A text that is put into a line leaves it one line unless there is a line break in the text. There is
none in a written number, whatever its size, and so none in a readout, which is the beginning of a
number or a rounded one. There is none in a quoted text either, nor in data written without blanks,
whatever they hold.

## Main definitions

* `StaysOnLine` — no line break is in a text

## Main results

* `staysOnLine_readout` — a readout stays on its line
* `staysOnLine_quoted`, `Json.staysOnLine_compact` — so do a quoted text and written data
* `count_join_eq_iff` — texts are as many lines as they are if each of them is one
-/

namespace LiveTuner

/-- No line break is in the text. -/
def StaysOnLine (s : String) : Prop := '\n' ∉ s.toList

instance (s : String) : Decidable (StaysOnLine s) := inferInstanceAs (Decidable ('\n' ∉ s.toList))

variable {s s' separator : String} {l : List Char} {ss : List String}

/-! ### Parts -/

/-- A text that is put into another one is itself. -/
@[simp] theorem toString_text (s : String) : toString s = s := rfl

@[simp] theorem staysOnLine_append :
    StaysOnLine (s ++ s') ↔ StaysOnLine s ∧ StaysOnLine s' := by
  simp [StaysOnLine]

@[simp] theorem staysOnLine_ofList : StaysOnLine (String.ofList l) ↔ '\n' ∉ l := by
  simp [StaysOnLine]

theorem staysOnLine_intercalate (hseparator : StaysOnLine separator) :
    StaysOnLine (separator.intercalate ss) ↔ ∀ s ∈ ss, StaysOnLine s := by
  rw [StaysOnLine, String.toList_intercalate]
  induction ss with
  | nil => simp
  | cons s rest ih =>
    cases rest with
    | nil => simp [StaysOnLine]
    | cons s' rest =>
      have hseparator : '\n' ∉ separator.toList := hseparator
      rw [List.forall_mem_cons, ← ih, List.map_cons, List.map_cons, List.intercalate_cons_cons]
      simp [StaysOnLine, hseparator]

/-! ### Numbers -/

theorem notMem_toDigits {base : Nat} (hbase : 1 < base) (n : Nat) :
    '\n' ∉ Nat.toDigits base n := by
  -- On what is left of the number when its last digit is taken off.
  induction n using Nat.strongRecOn with
  | ind n ih =>
    rw [Nat.toDigits_eq_if hbase]
    split_ifs with hlt
    · simp
    · have hsmaller := ih (n / base) (Nat.div_lt_self (by omega) hbase)
      simp [hsmaller]

theorem staysOnLine_toString (n : Int) : StaysOnLine (toString n) := fun h =>
  (eq_minus_or_isDigit h).elim (by decide) (by decide)

theorem staysOnLine_toString_nat (n : Nat) : StaysOnLine (toString n) := staysOnLine_toString n

theorem staysOnLine_idText (id : ParamId) : StaysOnLine id.text := by
  have hmark : StaysOnLine "#" := by decide
  rw [ParamId.text, staysOnLine_append]
  exact ⟨hmark, staysOnLine_toString _⟩

namespace Decimal

theorem staysOnLine_positional (d : Decimal) (keepsPoint : Bool) :
    StaysOnLine (d.positional keepsPoint) := by
  have hdigits : '\n' ∉ Nat.toDigits 10 d.digits := notMem_toDigits (by decide) d.digits
  have hpadded (n : Nat) : '\n' ∉ List.replicate n '0' ++ Nat.toDigits 10 d.digits := by
    simp [hdigits]
  rw [positional]
  dsimp only
  -- Either zeros come behind the digits, or the point stands among them or zeros before them.
  split
  · rw [staysOnLine_append, staysOnLine_ofList]
    exact ⟨by simp [hdigits], by split_ifs <;> decide⟩
  · simp only [staysOnLine_append, staysOnLine_ofList]
    exact ⟨⟨fun h => hpadded _ (List.mem_of_mem_take h), by decide⟩,
      fun h => hpadded _ (List.mem_of_mem_drop h)⟩

theorem staysOnLine_exponential (d : Decimal) (plusSign : Bool) :
    StaysOnLine (d.exponential plusSign) := by
  have hdigits : '\n' ∉ Nat.toDigits 10 d.digits := notMem_toDigits (by decide) d.digits
  rw [exponential]
  generalize Nat.toDigits 10 d.digits = digits at hdigits ⊢
  simp only [staysOnLine_append]
  refine ⟨⟨⟨?_, by decide⟩, by split_ifs <;> decide⟩, staysOnLine_toString_nat _⟩
  split
  · decide
  · rwa [staysOnLine_ofList]
  · rw [staysOnLine_ofList]
    simpa using hdigits

theorem staysOnLine_text (d : Decimal) (style : NumberStyle) : StaysOnLine (d.text style) := by
  rw [text]
  split
  · exact d.staysOnLine_positional _
  · split_ifs
    · exact d.staysOnLine_positional _
    · exact d.staysOnLine_exponential _

end Decimal

namespace Binary64

variable (x : Binary64)

theorem staysOnLine_signText : StaysOnLine x.signText := by
  rw [signText]
  split_ifs <;> decide

theorem staysOnLine_text (style : NumberStyle) : StaysOnLine (x.text style) := by
  rw [text]
  split_ifs
  · decide
  · exact staysOnLine_append.mpr ⟨x.staysOnLine_signText, by decide⟩
  · exact staysOnLine_append.mpr ⟨x.staysOnLine_signText, by decide⟩
  · exact staysOnLine_append.mpr ⟨x.staysOnLine_signText, by decide⟩
  · exact staysOnLine_append.mpr ⟨x.staysOnLine_signText, Decimal.staysOnLine_text _ _⟩

theorem staysOnLine_fixed (places : Nat) : StaysOnLine (x.fixed places) := by
  rw [fixed, staysOnLine_append]
  exact ⟨x.staysOnLine_signText, Decimal.staysOnLine_positional _ _⟩

theorem staysOnLine_scientific (digits : Nat) : StaysOnLine (x.scientific digits).1 := by
  rw [scientific]
  exact staysOnLine_append.mpr ⟨x.staysOnLine_signText, Decimal.staysOnLine_positional _ _⟩

end Binary64

/-! ### Readouts -/

/-- What is left when characters are taken from the end is the beginning of the text. -/
theorem staysOnLine_trimFraction (h : StaysOnLine s) : StaysOnLine (trimFraction s) := by
  rw [trimFraction]
  split_ifs
  · rw [staysOnLine_ofList]
    intro hmem
    have hdropped := (List.dropWhile_suffix _).mem (List.mem_reverse.mp hmem)
    exact h (List.mem_reverse.mp ((List.dropWhile_suffix _).mem hdropped))
  · exact h

theorem staysOnLine_twoDigits (x : Binary64) : StaysOnLine (twoDigits x) := by
  rw [twoDigits]
  split
  · exact x.staysOnLine_text .plain
  · dsimp only
    split
    · simp only [staysOnLine_append]
      exact ⟨⟨⟨staysOnLine_trimFraction (x.staysOnLine_scientific 2), by decide⟩,
        by split_ifs <;> decide⟩, staysOnLine_toString_nat _⟩
    · exact staysOnLine_trimFraction (x.staysOnLine_fixed _)

/-- A readout stays on its line. -/
theorem staysOnLine_readout (x : Binary64) : StaysOnLine (readout x) := by
  rw [readout]
  split_ifs
  · rw [staysOnLine_ofList]
    exact fun h => x.staysOnLine_text .plain (List.mem_of_mem_take h)
  · exact staysOnLine_twoDigits x
  · exact x.staysOnLine_text .plain

/-! ### Quoted texts -/

theorem notMem_quotedChar (c : Char) : '\n' ∉ quotedChar c := by
  have hdigits : '\n' ∉ Nat.toDigits 16 c.toNat := notMem_toDigits (by decide) c.toNat
  rw [quotedChar]
  split_ifs with _ _ _ hbreak
  · decide
  · decide
  · decide
  · decide
  · decide
  · decide
  · simp [hdigits]
  · simpa using Ne.symm hbreak

/-- A quoted text stays on its line. -/
theorem staysOnLine_quoted (s : String) : StaysOnLine (quoted s) := by
  rw [quoted, staysOnLine_ofList]
  simp [notMem_quotedChar]

/-! ### Data -/

namespace Json

theorem notMem_textChars (s : String) : '\n' ∉ textChars s := by
  have hescaped (c : Char) : '\n' ∉ escapedChar c := by
    rw [escapedChar]
    split_ifs with _ _ _ _ hbreak
    · decide
    · decide
    · decide
    · decide
    · decide
    · decide
    · decide
    · simp [hexDigit]
    · simpa using Ne.symm hbreak
  simp [textChars, hescaped]

theorem notMem_integerChars (n : Int) : '\n' ∉ integerChars n := by
  have hdigits : '\n' ∉ Nat.toDigits 10 n.natAbs := notMem_toDigits (by decide) n.natAbs
  rw [integerChars]
  split_ifs <;> simp [hdigits]

mutual

theorem notMem_chars : ∀ v : Json, '\n' ∉ chars v
  | null => by simp [chars]
  | bool b => by cases b <;> simp [chars, boolChars]
  | integer n => by
    rw [chars]
    exact notMem_integerChars n.val
  | real x => by
    rw [chars]
    exact x.val.staysOnLine_text .data
  | string s => by
    rw [chars]
    exact notMem_textChars s
  | array items => by simp [chars, notMem_itemChars items]
  | object members => by simp [chars, notMem_memberChars members]

theorem notMem_itemChars : ∀ items : List Json, '\n' ∉ itemChars items
  | [] => by simp [itemChars]
  | [v] => by simpa [itemChars] using notMem_chars v
  | v :: w :: rest => by simp [itemChars, notMem_chars v, notMem_itemChars (w :: rest)]

theorem notMem_memberChars : ∀ members : List (String × Json), '\n' ∉ memberChars members
  | [] => by simp [memberChars]
  | [(k, v)] => by simp [memberChars, notMem_textChars k, notMem_chars v]
  | (k, v) :: member :: rest => by
    simp [memberChars, notMem_textChars k, notMem_chars v, notMem_memberChars (member :: rest)]

end

/-- A value that is written without blanks stays on its line. -/
theorem staysOnLine_compact (v : Json) : StaysOnLine v.compact := by
  rw [compact, staysOnLine_ofList]
  exact notMem_chars v

end Json

/-! ### Several lines -/

theorem count_join_cons (line : String) (lines : List String) :
    (String.join ((line :: lines).map (· ++ "\n"))).toList.count '\n' =
      line.toList.count '\n' + 1 + (String.join (lines.map (· ++ "\n"))).toList.count '\n' := by
  have hbreak : "\n".toList.count '\n' = 1 := by decide
  simp only [String.toList_join, List.map_cons, List.flatMap_cons, List.count_append,
    String.toList_append, hbreak]

theorem length_le_count_join (lines : List String) :
    lines.length ≤ (String.join (lines.map (· ++ "\n"))).toList.count '\n' := by
  induction lines with
  | nil => exact Nat.zero_le _
  | cons line rest ih =>
    rw [count_join_cons, List.length_cons]
    omega

/-- Texts with a line break after each are as many lines as they are texts if no other line break is
in them. -/
theorem count_join_eq_iff (lines : List String) :
    (String.join (lines.map (· ++ "\n"))).toList.count '\n' = lines.length ↔
      ∀ line ∈ lines, StaysOnLine line := by
  induction lines with
  | nil => simp
  | cons line rest ih =>
    have hrest := length_le_count_join rest
    have hline : StaysOnLine line ↔ line.toList.count '\n' = 0 := List.count_eq_zero.symm
    rw [List.forall_mem_cons, ← ih, hline, count_join_cons, List.length_cons]
    omega

end LiveTuner
