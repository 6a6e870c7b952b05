import LiveTuner.Proofs.Json.Spacing

/-!
# Texts among white space

Within quotes a character stands for itself unless it begins an escape, and white space is no
exception. There is none in an escape. So the literal that is left when its white space is squeezed
spells a text too, one that is shorter where a run of white space was, and that has plain blanks in
place of other ones. It is the same text only if the literal is the same.

## Main definitions

* `Json.IsEscape` — an escape stands for a character
* `Json.Spells` — a literal after its opening quote spells a text

## Main results

* `Json.exists_spells_of_readText`, `Json.Spells.readText` — what is read as a text
* `Json.spells_squeezed` — what a squeezed literal spells
* `Json.read_string_squeezed` — a text whose white space is squeezed
-/

namespace LiveTuner.Json

variable {c : Char} {l s t rest : List Char}

/-! ### Escapes -/

/-- An escape without white space stands for a character, whatever comes after it. -/
structure IsEscape (e : List Char) (c : Char) : Prop where
  /-- Nothing in it can be squeezed. -/
  isBlank_eq : ∀ d ∈ e, isBlank d = false
  /-- It is read as the character. -/
  readText_eq : ∀ t, readText (e ++ t) = consChar c (readText t)

/-- A hexadecimal digit is no white space. -/
theorem isBlank_of_hexValue? {n : Nat} (h : hexValue? c = some n) : isBlank c = false := by
  unfold hexValue? at h
  split at h
  · next hc => exact isBlank_eq_false_of_between (by decide) (by decide) hc
  · split at h
    · next hc => exact isBlank_eq_false_of_between (by decide) (by decide) hc
    · split at h
      · next hc => exact isBlank_eq_false_of_between (by decide) (by decide) hc
      · cases h

theorem isBlank_of_hexNumber? {a b c d : Char} {n : Nat} (h : hexNumber? a b c d = some n) :
    ∀ x ∈ [a, b, c, d], isBlank x = false := by
  simp only [hexNumber?, Option.bind_eq_bind, Option.bind_eq_some_iff] at h
  obtain ⟨_, ha, _, hb, _, hc, _, hd, -⟩ := h
  simp [isBlank_of_hexValue? ha, isBlank_of_hexValue? hb, isBlank_of_hexValue? hc,
    isBlank_of_hexValue? hd]

theorem isBlank_of_hexEscape {a b c d : Char} {n : Nat} (h : hexNumber? a b c d = some n) :
    ∀ x ∈ ['\\', 'u', a, b, c, d], isBlank x = false :=
  List.forall_mem_cons.mpr ⟨rfl, List.forall_mem_cons.mpr ⟨rfl, isBlank_of_hexNumber? h⟩⟩

theorem isEscape_simple {d : Char} (h : simpleEscape? c = some d) : IsEscape ['\\', c] d := by
  have hc : isBlank c = false ∧ c ≠ 'u' := by
    unfold simpleEscape? at h
    split_ifs at h with h₁ h₂ h₃ h₄ h₅ h₆
    · obtain rfl | rfl | rfl := h₁ <;> decide
    all_goals subst c; decide
  constructor
  case isBlank_eq => exact List.forall_mem_cons.mpr ⟨rfl, by simp [hc.1]⟩
  case readText_eq =>
    intro t
    simp [readText, hc.2, h]

variable {a b d a' b' c' d' : Char} {n m : Nat}

theorem isEscape_hex (h : hexNumber? a b c d = some n) (hlow : ¬ (0xdc00 ≤ n ∧ n ≤ 0xdfff))
    (hhigh : n < 0xd800 ∨ 0xdbff < n) : IsEscape ['\\', 'u', a, b, c, d] (Char.ofNat n) where
  isBlank_eq := isBlank_of_hexEscape h
  readText_eq t := by simp [readText, h, hlow, hhigh]

theorem isEscape_pair (h : hexNumber? a b c d = some n) (hlow : ¬ (0xdc00 ≤ n ∧ n ≤ 0xdfff))
    (hhigh : ¬ (n < 0xd800 ∨ 0xdbff < n)) (h' : hexNumber? a' b' c' d' = some m)
    (hlow' : ¬ (m < 0xdc00 ∨ 0xdfff < m)) :
    IsEscape ['\\', 'u', a, b, c, d, '\\', 'u', a', b', c', d']
      (Char.ofNat (0x10000 + (n - 0xd800) * 0x400 + (m - 0xdc00))) := by
  constructor
  case isBlank_eq =>
    have hfirst := isBlank_of_hexEscape h
    exact List.forall_mem_append.mpr ⟨hfirst, isBlank_of_hexEscape h'⟩
  case readText_eq =>
    intro t
    simp [readText, h, hlow, hhigh, h', hlow']

/-! ### Literals -/

/-- What is left of a literal after its opening quote spells a text. -/
inductive Spells : List Char → List Char → Prop where
  /-- The closing quote ends the text. -/
  | close : Spells ['"'] []
  /-- A character stands for itself. -/
  | plain {c : Char} {l s : List Char} (hquote : c ≠ '"') (hslash : c ≠ '\\')
    (hcontrol : ¬ c.toNat < 0x20) (h : Spells l s) : Spells (c :: l) (c :: s)
  /-- An escape stands for a character. -/
  | escape {e l s : List Char} {c : Char} (he : IsEscape e c) (h : Spells l s) :
    Spells (e ++ l) (c :: s)

/-- A character stands for itself in what is read. -/
theorem readText_cons (hquote : c ≠ '"') (hslash : c ≠ '\\') (hcontrol : ¬ c.toNat < 0x20)
    (t : List Char) : readText (c :: t) = consChar c (readText t) := by
  rw [readText.eq_def]
  split
  · next h => cases h
  · next h => exact absurd (List.cons.inj h).1 hquote
  · next h => exact absurd (List.cons.inj h).1 hslash
  · next h => exact absurd (List.cons.inj h).1 hslash
  · next h => exact absurd (List.cons.inj h).1 hslash
  · next h =>
    cases h
    exact if_neg hcontrol

theorem Spells.readText (h : Spells l s) (rest : List Char) :
    Json.readText (l ++ rest) = .ok (s, rest) := by
  induction h with
  | close => rfl
  | plain hquote hslash hcontrol h ih =>
    rw [List.cons_append, readText_cons hquote hslash hcontrol, ih]
    rfl
  | escape he h ih =>
    rw [List.append_assoc, he.readText_eq, ih]
    rfl

theorem exists_of_consChar_eq_ok {reading : Reading (List Char)}
    (h : consChar c reading = .ok (s, rest)) : ∃ s', reading = .ok (s', rest) ∧ s = c :: s' := by
  obtain ⟨⟨s', rest'⟩, hreading, h⟩ := exists_of_map_eq_ok h
  cases h
  exact ⟨s', hreading, rfl⟩

theorem stopInHex_ne_ok {α : Type} {x : α} : stopInHex t ≠ .ok x := by
  unfold stopInHex
  split <;> simp [stop]

theorem stopAfterHalf_ne_ok {α : Type} {x : α} : stopAfterHalf t ≠ .ok x := by
  unfold stopAfterHalf
  split <;> simp [stop, stopAt]

/-- What is read as a text spells it up to the closing quote. -/
theorem exists_spells_of_readText (h : readText t = .ok (s, rest)) :
    ∃ l, t = l ++ rest ∧ Spells l s := by
  fun_induction readText t generalizing s rest with
  | case1 | case4 | case7 | case12 | case14 | case15 => cases h
  | case3 | case6 | case9 | case11 => exact absurd h stopInHex_ne_ok
  | case10 => exact absurd h stopAfterHalf_ne_ok
  | case2 =>
    cases h
    exact ⟨['"'], rfl, .close⟩
  | case5 a b c d t n hn hlow hhigh ih =>
    obtain ⟨s, hs, rfl⟩ := exists_of_consChar_eq_ok h
    obtain ⟨l, rfl, hl⟩ := ih hs
    exact ⟨_, rfl, .escape (isEscape_hex hn hlow hhigh) hl⟩
  | case8 a b c d n hn hlow hhigh a' b' c' d' t m hm hlow' ih =>
    obtain ⟨s, hs, rfl⟩ := exists_of_consChar_eq_ok h
    obtain ⟨l, rfl, hl⟩ := ih hs
    exact ⟨_, rfl, .escape (isEscape_pair hn hlow hhigh hm hlow') hl⟩
  | case13 c t hc d hd ih =>
    obtain ⟨s, hs, rfl⟩ := exists_of_consChar_eq_ok h
    obtain ⟨l, rfl, hl⟩ := ih hs
    exact ⟨_, rfl, .escape (isEscape_simple hd) hl⟩
  | case16 c t hquote hu hend hslash hcontrol ih =>
    have hc : c ≠ '\\' := by
      rintro rfl
      cases t with
      | nil => exact hend rfl rfl
      | cons d t => exact hslash d t rfl rfl
    obtain ⟨s, hs, rfl⟩ := exists_of_consChar_eq_ok h
    obtain ⟨l, rfl, hl⟩ := ih hs
    exact ⟨_, rfl, .plain hquote hc hcontrol hl⟩

/-! ### Squeezed literals -/

/-- A literal ends with its closing quote. -/
theorem Spells.exists_eq_append (h : Spells l s) : ∃ start, l = start ++ ['"'] := by
  induction h with
  | close => exact ⟨[], rfl⟩
  | @plain c l s _ _ _ _ ih =>
    obtain ⟨start, rfl⟩ := ih
    exact ⟨c :: start, rfl⟩
  | @escape e l s c _ _ ih =>
    obtain ⟨start, rfl⟩ := ih
    exact ⟨e ++ start, (List.append_assoc ..).symm⟩

/-- A squeezed literal spells a text that is no longer. It is the same only if the literal is. -/
theorem spells_squeezed (h : Spells l s) :
    ∃ s', Spells (squeezed l) s' ∧ s'.length ≤ s.length ∧ (s' = s → squeezed l = l) := by
  induction h with
  | close => exact ⟨[], .close, le_rfl, fun _ => rfl⟩
  | @escape e l s c he h ih =>
    obtain ⟨s', hs', hle, heq⟩ := ih
    refine ⟨c :: s', ?_, Nat.succ_le_succ hle, fun hs => ?_⟩
    · rw [squeezed_append he.isBlank_eq]
      exact .escape he hs'
    · rw [squeezed_append he.isBlank_eq, heq (List.cons.inj hs).2]
  | @plain c l s hquote hslash hcontrol h ih =>
    obtain ⟨s', hs', hle, heq⟩ := ih
    cases hc : isBlank c with
    | false =>
      rw [squeezed_cons hc]
      exact ⟨c :: s', .plain hquote hslash hcontrol hs', Nat.succ_le_succ hle,
        fun hs => by rw [heq (List.cons.inj hs).2]⟩
    | true =>
      cases hl : isBreak l with
      | true =>
        -- White space goes on, so the text gets shorter, and what the rest spells does not matter.
        rw [squeezed_cons_of_isBreak hc hl]
        refine ⟨s', hs', hle.trans (Nat.le_succ _), fun hs => ?_⟩
        rw [hs, List.length_cons] at hle
        omega
      | false =>
        rw [squeezed_cons_of_isBlank hc hl]
        refine ⟨' ' :: s', .plain (by decide) (by decide) (by decide) hs', Nat.succ_le_succ hle,
          fun hs => ?_⟩
        obtain ⟨rfl, hrest⟩ := List.cons.inj hs
        rw [heq hrest]

/-! ### Whole texts -/

/-- A text between quotes and gaps, as it is read. -/
theorem exists_spells_of_read {s : String} (h : read t = .ok (string s)) :
    ∃ l cs rest, t.dropWhile isBlank = '"' :: (l ++ rest) ∧ Spells l cs ∧ s = String.ofList cs ∧
      ∀ c ∈ rest, isBlank c = true := by
  obtain ⟨rest, hvalue, hrest⟩ := read_eq_ok_iff.mp h
  have hfront := dropWhile_isBlank ((readsTextless_readValue maxNesting).isBreak_eq hvalue)
  obtain ⟨c, later, hlater, hbegins⟩ := readValue_eq_ok_iff.mp hvalue
  obtain ⟨rfl, hs⟩ := hbegins.eq_quote
  obtain ⟨⟨cs, rest'⟩, hcs, hs⟩ := exists_of_map_eq_ok hs
  cases hs
  obtain ⟨l, rfl, hl⟩ := exists_spells_of_readText hcs
  exact ⟨l, cs, rest, hfront.trans hlater, hl, rfl, forall_isBlank_of_skipGaps hrest⟩

/-- A literal between quotes is read as the text that it spells. -/
theorem Spells.read (h : Spells l s) : Json.read ('"' :: l) = .ok (string (String.ofList s)) := by
  have htext : readString l = .ok (String.ofList s, []) := by
    have := h.readText []
    rw [List.append_nil] at this
    simp [readString, this, Except.map]
  exact read_eq_ok_iff.mpr ⟨[], readValue_eq_ok_iff.mpr ⟨'"', l, rfl, .text htext⟩, rfl⟩

theorem trimmed_of_spells (h : Spells l s) (hrest : ∀ c ∈ rest, isBlank c = true)
    (ht : t.dropWhile isBlank = '"' :: (l ++ rest)) : trimmed t = '"' :: l := by
  obtain ⟨start, rfl⟩ := h.exists_eq_append
  rw [trimmed, ht, ← List.cons_append, rdropWhile_append_of_forall hrest, ← List.cons_append]
  exact List.rdropWhile_concat_neg _ _ _ (by decide)

/-- A text is still a text with its white space squeezed. It is the same one exactly if all white
space in its literal is lone blanks. -/
theorem read_string_squeezed {s : String} (h : Json.read t = .ok (string s)) :
    ∃ s', Json.read (squeezed (t.dropWhile isBlank)) = .ok (string s') ∧
      (s' = s ↔ LoneBlanks (trimmed t)) := by
  obtain ⟨l, cs, rest, ht, hl, rfl, hrest⟩ := exists_spells_of_read h
  obtain ⟨cs', hl', -, heq⟩ := spells_squeezed hl
  have hsqueezed : squeezed (t.dropWhile isBlank) = '"' :: squeezed l := by
    rw [ht, squeezed_cons rfl, squeezed_append_blanks hrest]
  refine ⟨String.ofList cs', hsqueezed ▸ hl'.read, ?_⟩
  rw [trimmed_of_spells hl hrest ht, ← squeezed_eq_self_iff, squeezed_cons rfl]
  constructor
  · intro hs
    rw [heq (String.ofList_injective hs)]
  · intro hsame
    rw [(List.cons.inj hsame).2] at hl'
    have hsame := (hl'.readText []).symm.trans (hl.readText [])
    exact congrArg String.ofList (Prod.mk.inj (Except.ok.inj hsame)).1

end LiveTuner.Json
