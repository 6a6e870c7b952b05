import LiveTuner.Command
import LiveTuner.Program
import LiveTuner.Proofs.Json.Text
import LiveTuner.Proofs.Literal

/-!
# Typed values

The value of a parameter can be an argument of the program, or be typed after the id while the
program runs. An argument is read as it is. A typed line is cut into words first, and the words of
the value are put together again with one blank between them. So a typed value is read of a text
whose white space is squeezed.

Between the parts of a value this makes no difference. Within quotes it does: white space there is
part of the text, and only lone blanks are left alone. A typed value is always read, but a text
with other white space in its literal becomes another text.

## Main definitions

* `Command.setLine` — the line that sets a parameter

## Main results

* `Command.joinWords_words` — words put together again are the text with its white space squeezed
* `Command.parse_setLine` — what a typed value is read as
* `Command.parse_setLine_of_readArgument` — when that is the value of the argument
-/

namespace LiveTuner

/-! ### Values -/

theorem Json.isTextless_of_toReal? {v : Json} {x : Binary64} (h : v.toReal? = some x) :
    v.isTextless = true := by
  cases v with
  | integer | real => rfl
  | null | bool | string | array | object => cases h

/-- The items of a sequence that is a parameter value are numbers. -/
theorem Json.exists_toReal?_of_ofJson? {items : List Json} {val : Value}
    (h : Value.ofJson? (.array items) = some val) : ∀ v ∈ items, ∃ x, v.toReal? = some x := by
  intro v hv
  rw [Value.ofJson?] at h
  split at h
  · next ns hns =>
    obtain ⟨n, hn⟩ := exists_of_mapM_eq_some hns hv
    cases v with
    | integer i => exact ⟨_, rfl⟩
    | null | bool | real | string | array | object => cases hn
  · obtain ⟨xs, hxs, -⟩ := Option.map_eq_some_iff.mp h
    exact exists_of_mapM_eq_some hxs hv

/-- A data value that is a parameter value is a text, or it holds none. -/
theorem Value.isTextless_or_of_ofJson? {v : Json} {val : Value} (h : ofJson? v = some val) :
    v.isTextless = true ∧ (∀ s, val ≠ .text s) ∨ ∃ s, v = .string s ∧ val = .text s := by
  cases v with
  | null | bool | real =>
    cases h
    exact Or.inl ⟨rfl, by simp⟩
  | integer n =>
    rw [ofJson?] at h
    split at h <;>
    · cases h
      exact Or.inl ⟨rfl, by simp⟩
  | string s =>
    cases h
    exact Or.inr ⟨s, rfl, rfl⟩
  | array items =>
    refine Or.inl ⟨Json.areTextless_eq_true_iff.mpr fun v hv => ?_, ?_⟩
    · obtain ⟨x, hx⟩ := Json.exists_toReal?_of_ofJson? h v hv
      exact Json.isTextless_of_toReal? hx
    · rw [ofJson?] at h
      intro s hs
      subst hs
      split at h
      · cases h
      · simp at h
  | object => cases h

/-! ### Lines -/

namespace Command

variable {t : List Char} {id : ParamId} {text : String} {val : Value}

theorem joinWords_cons (word : List Char) (later : List (List Char)) :
    joinWords (word :: later) = word ++ later.flatMap (' ' :: ·) := by
  induction later generalizing word with
  | nil => simp [joinWords]
  | cons next later ih =>
    have hword : joinWords (word :: next :: later) = word ++ ' ' :: joinWords (next :: later) := rfl
    rw [hword, ih, List.flatMap_cons, List.cons_append]

/-- Words put together again are the text with its white space squeezed. -/
theorem joinWords_words (t : List Char) :
    joinWords (words t) = squeezed (t.dropWhile isBlank) := by
  rw [← words_dropWhile t]
  cases hfront : t.dropWhile isBlank with
  | nil => rfl
  | cons c rest =>
    have hc : isBlank c = false := by
      have := List.head?_dropWhile_not isBlank t
      simpa [hfront] using this
    have hfirst : (leadingPiece isBlank (c :: rest)).1 ≠ [] := by
      simp [leadingPiece_fst_eq_nil_iff, isBreak, hc]
    rw [squeezed_eq_leadingPiece, words, pieces]
    simp [hfirst, joinWords_cons]

/-- The line that sets a parameter: its id, with so many marks in front, and the text of the
value. -/
def setLine (marks : Nat) (id : ParamId) (text : String) : String :=
  "set " ++ String.ofList (List.replicate marks '#') ++ toString id.number.toInt ++ " " ++ text

/-- The word of an id, with so many marks in front. -/
def idWord (marks : Nat) (id : ParamId) : List Char :=
  List.replicate marks '#' ++ (toString id.number.toInt).toList

theorem idWord_ne_nil (marks : Nat) (id : ParamId) : idWord marks id ≠ [] :=
  List.append_ne_nil_of_right_ne_nil _ (toString_ne_nil _)

theorem isBlank_of_mem_idWord {marks : Nat} {c : Char} (h : c ∈ idWord marks id) :
    isBlank c = false := by
  rcases List.mem_append.mp h with h | h
  · obtain rfl := List.eq_of_mem_replicate h
    rfl
  · rcases eq_minus_or_isDigit h with rfl | hdigit
    · rfl
    · exact Json.isBlank_of_digitValue? (digitValue?_of_isDigit hdigit)

theorem readId_idWord (marks : Nat) (id : ParamId) (rest : List (List Char)) :
    readId (idWord marks id :: rest) = .ok (id, rest) := by
  have hmarks : (idWord marks id).dropWhile (· = '#') = (toString id.number.toInt).toList := by
    rw [idWord, List.dropWhile_append_of_pos (by simp +contextual [List.mem_replicate])]
    cases hword : (toString id.number.toInt).toList with
    | nil => rfl
    | cons c word =>
      have hc : c ≠ '#' := by
        rintro rfl
        have := eq_minus_or_isDigit (hword ▸ List.mem_cons_self)
        simp at this
      exact List.dropWhile_cons_of_neg (by simpa using hc)
  rw [readId, hmarks, readInt64_toString]

/-- The words of such a line are the verb, the id and the words of the text. -/
theorem words_setLine (marks : Nat) (id : ParamId) (text : String) :
    words (setLine marks id text).toList =
      ['s', 'e', 't'] :: idWord marks id :: words text.toList := by
  have hline : (setLine marks id text).toList =
      ['s', 'e', 't'] ++ ' ' :: (idWord marks id ++ ' ' :: text.toList) := by
    simp [setLine, idWord, String.toList_append]
  rw [hline, words_append (by simp) (by simp [isBlank]) rfl, words_cons_of_isBlank rfl,
    words_append (idWord_ne_nil marks id) (fun _ => isBlank_of_mem_idWord) rfl,
    words_cons_of_isBlank rfl]

/-- The value of a line that sets a parameter is read of its text with the white space squeezed. -/
theorem parse_setLine (marks : Nat) (id : ParamId) (text : String) :
    parse (setLine marks id text) =
      (readValue (squeezed (text.toList.dropWhile isBlank))).map fun val =>
        .interact id (.setValue val) := by
  have hset : ∀ rest, ofWords (['s', 'e', 't'] :: rest) = readId rest >>= fun later =>
      readValue (joinWords later.2) >>= fun val => pure (.interact later.1 (.setValue val)) :=
    fun _ => rfl
  rw [parse, words_setLine, ← joinWords_words, hset, readId_idWord]
  rfl

theorem readValue_eq_ok_iff {raw : List Char} :
    readValue raw = .ok val ↔ ∃ v, Json.read raw = .ok v ∧ Value.ofJson? v = some val := by
  unfold readValue
  cases Json.read raw with
  | error e => simp
  | ok v => cases hv : Value.ofJson? v <;> simp [hv]

theorem readArgument_eq_ok_iff :
    Plan.readArgument text = .ok val ↔
      ∃ v, Json.read text.toList = .ok v ∧ Value.ofJson? v = some val := by
  unfold Plan.readArgument
  cases Json.read text.toList with
  | error e => simp
  | ok v => cases hv : Value.ofJson? v <;> simp [hv]

/-- An argument that is a parameter value can be typed instead, after any id with any number of
marks. It is always read, and as the same value unless it is a text in whose literal there is
white space other than lone blanks. -/
theorem parse_setLine_of_readArgument (marks : Nat) (id : ParamId)
    (h : Plan.readArgument text = .ok val) :
    ∃ typed, parse (setLine marks id text) = .ok (.interact id (.setValue typed)) ∧
      (typed = val ↔ ((∃ s, val = .text s) → LoneBlanks (trimmed text.toList))) := by
  obtain ⟨v, hread, hv⟩ := readArgument_eq_ok_iff.mp h
  rw [parse_setLine]
  rcases Value.isTextless_or_of_ofJson? hv with ⟨htextless, hval⟩ | ⟨s, rfl, rfl⟩
  · -- All white space is between parts of the value.
    have htyped := readValue_eq_ok_iff.mpr ⟨v, Json.read_squeezed hread htextless, hv⟩
    refine ⟨val, by rw [htyped]; rfl, iff_of_true rfl ?_⟩
    rintro ⟨s, hs⟩
    exact absurd hs (hval s)
  · -- The value is one literal.
    obtain ⟨s', hread', hsame⟩ := Json.read_string_squeezed hread
    have htyped := readValue_eq_ok_iff.mpr ⟨_, hread', rfl⟩
    refine ⟨.text s', by rw [htyped]; rfl, ?_⟩
    rw [Value.text.injEq, hsame]
    exact ⟨fun h _ => h, fun h => h ⟨s, rfl⟩⟩

/-- Two integers, with white space of several kinds in front of each. -/
def samplePair : String := " [1,\t  2]"

/-- They can be typed after an id with a mark. -/
theorem parse_setLine_samplePair :
    Plan.readArgument samplePair = .ok (.ints [1, 2]) ∧
      parse (setLine 1 ⟨3⟩ samplePair) = .ok (.interact ⟨3⟩ (.setValue (.ints [1, 2]))) := by
  have hread : Plan.readArgument samplePair = .ok (.ints [1, 2]) := by decide +kernel
  obtain ⟨typed, hparse, hsame⟩ := parse_setLine_of_readArgument 1 ⟨3⟩ hread
  have htyped : typed = .ints [1, 2] := hsame.mpr (by rintro ⟨s, ⟨⟩⟩)
  exact ⟨hread, htyped ▸ hparse⟩

/-- A text with two blanks in a row. -/
def sampleCaption : String := "\"a  b\""

/-- It is typed as a text with one. -/
theorem parse_setLine_sampleCaption :
    Plan.readArgument sampleCaption = .ok (.text "a  b") ∧ '\n' ∉ sampleCaption.toList ∧
      setLine 0 ⟨1⟩ sampleCaption = "set 1 \"a  b\"" ∧
      parse (setLine 0 ⟨1⟩ sampleCaption) = .ok (.interact ⟨1⟩ (.setValue (.text "a b"))) ∧
      parse (setLine 0 ⟨1⟩ sampleCaption) ≠ .ok (.interact ⟨1⟩ (.setValue (.text "a  b"))) := by
  decide +kernel

end Command

end LiveTuner
