import LiveTuner.Proofs.Json.Number
import LiveTuner.Proofs.Outcome

/-!
# Values among white space

Between the parts of a value there may be gaps, and the reader passes over as many as there are. In
a squeezed text other gaps stand in the same places. So a value in which no text is, neither as an
item nor as a key, is read of the squeezed text as it is of the text.

The reader takes at most as many items as there are characters, and a squeezed text has fewer. It
still has one for each item, so the bound is as good as none: `Items` says what a sequence is
without it.

## Main definitions

* `Json.Next`, `Json.Items` — where the next item of a sequence begins, and what its items are
* `Json.Begins` — what a text is read as from its first character on
* `Json.ReadsTextless` — values without texts are read of squeezed texts as of texts

## Main results

* `Json.Items.readItems` — the bound on the number of items does not matter
* `Json.readValue_eq_ok_iff`, `Json.read_eq_ok_iff` — what it means that a value is read
* `Json.read_squeezed` — a value without texts in a squeezed text
-/

namespace LiveTuner.Json

variable {c : Char} {t rest : List Char} {v : Json}

/-! ### Gaps -/

theorem isBlank_of_isGap (h : isGap c = true) : isBlank c = true := by
  simp only [isGap, Bool.or_eq_true, beq_iff_eq] at h
  obtain ((rfl | rfl) | rfl) | rfl := h <;> rfl

theorem skipGaps_cons_of_isGap (h : isGap c = true) : skipGaps (c :: t) = skipGaps t :=
  List.dropWhile_cons_of_pos h

theorem skipGaps_cons (h : isGap c = false) : skipGaps (c :: t) = c :: t :=
  List.dropWhile_cons_of_neg (by simp [h])

theorem skipGaps_of_isBreak (h : isBreak t = false) : skipGaps t = t := by
  cases t with
  | nil => rfl
  | cons c t =>
    refine skipGaps_cons ?_
    by_contra hgap
    rw [isBreak, isBlank_of_isGap (by simpa using hgap)] at h
    cases h

/-- If only gaps stand in front of a word, the squeezed text has one in front of the same word.
Other white space would stop the reader in the text, but not in the squeezed one. -/
theorem skipGaps_squeezed (h : skipGaps t = [] ∨ isBreak (skipGaps t) = false) :
    skipGaps (squeezed t) = squeezed (skipGaps t) := by
  induction t with
  | nil => rfl
  | cons c t ih =>
    cases hgap : isGap c with
    | true =>
      rw [skipGaps_cons_of_isGap hgap] at h ⊢
      have hc := isBlank_of_isGap hgap
      -- A gap is lost or becomes a blank, and the reader passes over either.
      cases ht : isBreak t with
      | true => rw [squeezed_cons_of_isBreak hc ht, ih h]
      | false => rw [squeezed_cons_of_isBlank hc ht, skipGaps_cons_of_isGap rfl, ih h]
    | false =>
      rw [skipGaps_cons hgap] at h ⊢
      exact skipGaps_of_isBreak (by simpa using h)

/-- What follows gaps is not a gap. -/
theorem skipGaps_skipGaps (t : List Char) : skipGaps (skipGaps t) = skipGaps t :=
  List.dropWhile_idempotent ..

/-! ### Sequences -/

variable {first more : Bool} {bound nesting : Nat} {items : List Json}
  {readItem : List Char → Reading Json}

/-- The next item of a sequence is where the rest of a text begins, or the sequence ends before that
rest. -/
inductive Next : Bool → List Char → Bool → List Char → Prop where
  /-- The sequence ends. -/
  | close {first : Bool} {t rest : List Char} (h : skipGaps t = ']' :: rest) :
    Next first t false rest
  /-- The first item comes at once. -/
  | start {c : Char} {t rest : List Char} (h : skipGaps t = c :: rest) (hc : c ≠ ']') :
    Next true t true (c :: rest)
  /-- Any other comes after a comma. -/
  | comma {c : Char} {t later rest : List Char} (h : skipGaps t = ',' :: later)
    (hlater : skipGaps later = c :: rest) (hc : c ≠ ']') : Next false t true (c :: rest)

theorem nextItem_eq_ok_iff : nextItem first t = .ok (more, rest) ↔ Next first t more rest := by
  constructor
  · intro h
    unfold nextItem at h
    split at h
    · cases h
    · next c later hlater =>
      split at h
      · next hc =>
        cases h
        exact .close (hc ▸ hlater)
      · next hclose =>
        split at h
        · next hfirst =>
          cases h
          exact hfirst ▸ .start hlater hclose
        · next hfirst =>
          split at h
          · next hc =>
            subst hc
            split at h
            · cases h
            · cases h
            · next hne hopen =>
              cases h
              cases hnext : skipGaps later with
              | nil => exact absurd hnext hne
              | cons d rest =>
                have hd : d ≠ ']' := fun hd => hopen rest (hd ▸ hnext)
                rw [Bool.not_eq_true] at hfirst
                exact hfirst ▸ .comma hlater hnext hd
          · cases h
  · rintro (h | ⟨h, hc⟩ | ⟨h, hlater, hc⟩)
    · simp [nextItem, h]
    · simp [nextItem, h, hc]
    · simp [nextItem, h, hlater, hc]

/-- The next item begins with no gap. -/
theorem Next.skipGaps_eq (h : Next first t true rest) : skipGaps rest = rest := by
  cases h with
  | start h hc => rw [← h, skipGaps_skipGaps]
  | comma h hlater hc => rw [← hlater, skipGaps_skipGaps]

theorem skipGaps_squeezed_of_eq_cons (hc : isBlank c = false) (h : skipGaps t = c :: rest) :
    skipGaps (squeezed t) = c :: squeezed rest := by
  rw [skipGaps_squeezed (Or.inr (by rw [h]; exact hc)), h, squeezed_cons hc]

/-- The next item is found in the squeezed text where it is found in the text, unless white space
that is no gap is found in its place. -/
theorem next_squeezed (h : Next first t more rest) (hrest : more = true → isBreak rest = false) :
    Next first (squeezed t) more (squeezed rest) := by
  cases h with
  | close h => exact .close (skipGaps_squeezed_of_eq_cons rfl h)
  | start h hc =>
    have hblank := hrest rfl
    rw [squeezed_cons hblank]
    exact .start (skipGaps_squeezed_of_eq_cons hblank h) hc
  | comma h hlater hc =>
    have hblank := hrest rfl
    rw [squeezed_cons hblank]
    exact .comma (skipGaps_squeezed_of_eq_cons rfl h)
      (skipGaps_squeezed_of_eq_cons hblank hlater) hc

theorem length_skipGaps_le (t : List Char) : (skipGaps t).length ≤ t.length :=
  (List.dropWhile_suffix _).length_le

theorem Next.length_le (h : Next first t more rest) : rest.length ≤ t.length := by
  have hskip := length_skipGaps_le t
  cases h with
  | close h =>
    rw [h, List.length_cons] at hskip
    omega
  | start h hc => rwa [← h]
  | @comma c _ later rest h hlater hc =>
    have hskip' := length_skipGaps_le later
    rw [h, List.length_cons] at hskip
    rw [← hlater]
    omega

/-- The items of a sequence, read one after another up to its end. -/
inductive Items (readItem : List Char → Reading Json) :
    Bool → List Char → List Json → List Char → Prop where
  /-- The sequence ends. -/
  | nil {first : Bool} {t rest : List Char} (h : Next first t false rest) :
    Items readItem first t [] rest
  /-- An item is read where the next one begins, and the others after it. -/
  | cons {first : Bool} {t u later rest : List Char} {v : Json} {items : List Json}
    (h : Next first t true u) (hv : readItem u = .ok (v, later))
    (hitems : Items readItem false later items rest) : Items readItem first t (v :: items) rest

theorem items_of_readItems (h : readItems readItem bound first t = .ok (items, rest)) :
    Items readItem first t items rest := by
  induction bound generalizing first t items rest with
  | zero => cases h
  | succ bound ih =>
    rw [readItems] at h
    obtain ⟨⟨more, u⟩, hnext, h⟩ := exists_of_bind_eq_ok h
    rw [nextItem_eq_ok_iff] at hnext
    cases more with
    | false =>
      cases h
      exact .nil hnext
    | true =>
      obtain ⟨⟨v, later⟩, hv, h⟩ := exists_of_bind_eq_ok h
      obtain ⟨⟨vs, rest⟩, hvs, h⟩ := exists_of_bind_eq_ok h
      cases h
      exact .cons hnext hv (ih hvs)

/-- The bound on the number of items does not matter as long as it is large enough. -/
theorem Items.readItems (h : Items readItem first t items rest) (hbound : items.length < bound) :
    Json.readItems readItem bound first t = .ok (items, rest) := by
  -- The end of the sequence takes one step more than the items do.
  induction h generalizing bound with
  | nil h =>
    obtain ⟨bound, rfl⟩ := Nat.exists_eq_succ_of_ne_zero (Nat.ne_zero_of_lt hbound)
    rw [Json.readItems, nextItem_eq_ok_iff.mpr h]
    rfl
  | cons h hv _ ih =>
    obtain ⟨bound, rfl⟩ := Nat.exists_eq_succ_of_ne_zero (Nat.ne_zero_of_lt hbound)
    rw [Json.readItems, nextItem_eq_ok_iff.mpr h]
    have hlater := ih (Nat.lt_of_succ_lt_succ hbound)
    simp [bind, Except.bind, hv, hlater, pure, Except.pure]

/-- By the reader, a value without texts is read of the squeezed text as of the text, and each has a
character. -/
structure ReadsTextless (read : List Char → Reading Json) : Prop where
  /-- A value begins with no white space but gaps. -/
  isBreak_eq : ∀ {t v rest}, read t = .ok (v, rest) → isBreak (skipGaps t) = false
  /-- Squeezing does not change what is read. -/
  squeezed_eq : ∀ {t v rest}, read t = .ok (v, rest) → v.isTextless = true →
    read (squeezed t) = .ok (v, squeezed rest)
  /-- Something is read. -/
  length_lt : ∀ {t v rest}, read t = .ok (v, rest) → v.isTextless = true → rest.length < t.length

theorem items_squeezed (hread : ReadsTextless readItem) (h : Items readItem first t items rest)
    (hitems : ∀ v ∈ items, v.isTextless = true) :
    Items readItem first (squeezed t) items (squeezed rest) := by
  induction h with
  | nil h => exact .nil (next_squeezed h (by simp))
  | cons h hv _ ih =>
    obtain ⟨hplain, hitems⟩ := List.forall_mem_cons.mp hitems
    -- The item has been read, so it is not other white space that comes next.
    have hbreak := hread.isBreak_eq hv
    rw [h.skipGaps_eq] at hbreak
    exact .cons (next_squeezed h fun _ => hbreak) (hread.squeezed_eq hv hplain) (ih hitems)

/-- Each item has a character. -/
theorem Items.length_le (hread : ReadsTextless readItem) (h : Items readItem first t items rest)
    (hitems : ∀ v ∈ items, v.isTextless = true) : items.length + rest.length ≤ t.length := by
  induction h with
  | nil h => simpa using h.length_le
  | cons h hv _ ih =>
    obtain ⟨hplain, hitems⟩ := List.forall_mem_cons.mp hitems
    have hnext := h.length_le
    have hitem := hread.length_lt hv hplain
    have hlater := ih hitems
    rw [List.length_cons]
    omega

/-! ### Values -/

/-- The words that stand for values: the first character, the others and the value. -/
def constants : List (Char × List Char × Json) :=
  [('n', ['u', 'l', 'l'], null), ('t', ['r', 'u', 'e'], bool true),
    ('f', ['a', 'l', 's', 'e'], bool false)]

/-- A word that stands for a value has no white space, and the value holds no text. -/
theorem of_mem_constants {word : List Char} {value : Json} (h : (c, word, value) ∈ constants) :
    isBlank c = false ∧ (∀ d ∈ word, isBlank d = false) ∧ value.isTextless = true := by
  simp only [constants, List.mem_cons, Prod.mk.injEq, List.not_mem_nil, or_false] at h
  obtain ⟨rfl, rfl, rfl⟩ | ⟨rfl, rfl, rfl⟩ | ⟨rfl, rfl, rfl⟩ := h <;>
    exact ⟨rfl, by simp [isBlank], rfl⟩

/-- What a text is read as that begins with the character `c`, with at most `nesting` sequences and
objects around any part of it. -/
inductive Begins : Nat → Char → List Char → Json → List Char → Prop where
  /-- A word that stands for a value. -/
  | word {nesting : Nat} {c : Char} {word t rest : List Char} {v value : Json}
    (hword : (c, word, value) ∈ constants) (h : readWord value word t = .ok (v, rest)) :
    Begins nesting c t v rest
  /-- A number below zero. -/
  | minus {nesting : Nat} {t rest : List Char} {v : Json}
    (h : readNumber true t = .ok (v, rest)) : Begins nesting '-' t v rest
  /-- Any other number. -/
  | digit {nesting : Nat} {c : Char} {t rest : List Char} {v : Json}
    (hc : (digitValue? c).isSome = true) (h : readNumber false (c :: t) = .ok (v, rest)) :
    Begins nesting c t v rest
  /-- A text, after its opening quote. -/
  | text {nesting : Nat} {t rest : List Char} {s : String} (h : readString t = .ok (s, rest)) :
    Begins nesting '"' t (string s) rest
  /-- A sequence, after its opening bracket. -/
  | list {nesting : Nat} {t rest : List Char} {items : List Json}
    (h : readItems (readValue nesting) (t.length + 1) true t = .ok (items, rest)) :
    Begins (nesting + 1) '[' t (array items) rest
  /-- An object, after its opening brace. -/
  | object {nesting : Nat} {t rest : List Char} {members : List (String × Json)}
    (h : readMembers (readValue nesting) (t.length + 1) true t = .ok (members, rest)) :
    Begins (nesting + 1) '\x7b' t (object (ofMembers members)) rest

theorem readValue_eq_ok_iff : readValue nesting t = .ok (v, rest) ↔
    ∃ c later, skipGaps t = c :: later ∧ Begins nesting c later v rest := by
  constructor
  · intro h
    unfold readValue at h
    split at h
    · cases h
    · next c later hlater =>
      refine ⟨c, later, hlater, ?_⟩
      split_ifs at h with hn ht hf hminus hdigit hquote hlist hobject
      · exact .word (by simp [constants, hn]) h
      · exact .word (by simp [constants, ht]) h
      · exact .word (by simp [constants, hf]) h
      · exact hminus ▸ .minus h
      · exact .digit hdigit h
      · obtain ⟨⟨s, later'⟩, hs, h⟩ := exists_of_map_eq_ok h
        cases h
        exact hquote ▸ .text hs
      · cases nesting with
        | zero => cases h
        | succ nesting =>
          obtain ⟨⟨items, later'⟩, hitems, h⟩ := exists_of_map_eq_ok h
          cases h
          exact hlist ▸ .list hitems
      · cases nesting with
        | zero => cases h
        | succ nesting =>
          obtain ⟨⟨members, later'⟩, hmembers, h⟩ := exists_of_map_eq_ok h
          cases h
          exact hobject ▸ .object hmembers
      · cases h
  · rintro ⟨c, later, hlater, h⟩
    unfold readValue
    simp only [hlater]
    cases h with
    | word hword h =>
      simp only [constants, List.mem_cons, Prod.mk.injEq, List.not_mem_nil, or_false] at hword
      obtain ⟨rfl, rfl, rfl⟩ | ⟨rfl, rfl, rfl⟩ | ⟨rfl, rfl, rfl⟩ := hword <;> exact h
    | minus h => exact h
    | digit hc h =>
      have hne : ∀ d : Char, digitValue? d = none → c ≠ d := by
        rintro d hd rfl
        simp [hd] at hc
      rw [if_neg (hne _ rfl), if_neg (hne _ rfl), if_neg (hne _ rfl), if_neg (hne _ rfl), if_pos hc]
      exact h
    | text h => simp [h, Except.map, digitValue?]
    | list h => simp [h, Except.map, digitValue?]
    | object h => simp [h, Except.map, digitValue?]

/-- No value begins with white space. -/
theorem Begins.isBlank_eq (h : Begins nesting c t v rest) : isBlank c = false := by
  cases h with
  | word hword h => exact (of_mem_constants hword).1
  | digit hc h =>
    obtain ⟨n, hn⟩ := Option.isSome_iff_exists.mp hc
    exact isBlank_of_digitValue? hn
  | minus | text | list | object => rfl

/-- Only a quote begins a text. -/
theorem Begins.eq_quote {s : String} (h : Begins nesting c t (string s) rest) :
    c = '"' ∧ readString t = .ok (s, rest) := by
  cases h with
  | word hword h =>
    obtain ⟨-, hletters, hvalue⟩ := of_mem_constants hword
    obtain ⟨-, -, rfl⟩ := readWord_squeezed hletters h
    cases hvalue
  | minus h | digit _ h =>
    obtain ⟨-, -, hvalue⟩ := readNumber_squeezed h
    cases hvalue
  | text h => exact ⟨rfl, h⟩

/-- A value without texts begins in the squeezed text as it does in the text, if the values within
it are read so. -/
theorem begins_squeezed (hread : ∀ n, nesting = n + 1 → ReadsTextless (readValue n))
    (h : Begins nesting c t v rest) (hv : v.isTextless = true) :
    Begins nesting c (squeezed t) v (squeezed rest) ∧ rest.length ≤ t.length := by
  have hc := h.isBlank_eq
  cases h with
  | word hword h =>
    obtain ⟨-, hletters, -⟩ := of_mem_constants hword
    obtain ⟨hvalue, hle, -⟩ := readWord_squeezed hletters h
    exact ⟨.word hword hvalue, hle⟩
  | minus h =>
    obtain ⟨hnumber, hlt, -⟩ := readNumber_squeezed h
    exact ⟨.minus hnumber, hlt.le⟩
  | digit hdigit h =>
    obtain ⟨hnumber, hlt, -⟩ := readNumber_squeezed h
    rw [squeezed_cons hc] at hnumber
    exact ⟨.digit hdigit hnumber, Nat.le_of_lt_succ hlt⟩
  | list h =>
    have hitems := areTextless_eq_true_iff.mp hv
    have hread' := hread _ rfl
    have hall := items_of_readItems h
    have hsqueezed := items_squeezed hread' hall hitems
    -- The squeezed text is shorter, but still longer than the number of items.
    have hlength := hsqueezed.length_le hread' hitems
    exact ⟨.list (hsqueezed.readItems (by omega)),
      (Nat.le_add_left _ _).trans (hall.length_le hread' hitems)⟩
  | text | object => cases hv

/-- Values are read so if the values within them are. -/
theorem readsTextless_of_within (hread : ∀ n, nesting = n + 1 → ReadsTextless (readValue n)) :
    ReadsTextless (readValue nesting) := by
  have hbegins : ∀ {t v rest}, readValue nesting t = .ok (v, rest) → ∃ c later,
      skipGaps t = c :: later ∧ isBlank c = false ∧ (v.isTextless = true →
        Begins nesting c (squeezed later) v (squeezed rest) ∧ rest.length ≤ later.length) := by
    intro t v rest h
    obtain ⟨c, later, hlater, hbegins⟩ := readValue_eq_ok_iff.mp h
    exact ⟨c, later, hlater, hbegins.isBlank_eq, begins_squeezed hread hbegins⟩
  constructor
  case isBreak_eq =>
    intro t v rest h
    obtain ⟨c, later, hlater, hc, -⟩ := hbegins h
    rw [hlater]
    exact hc
  case squeezed_eq =>
    intro t v rest h hv
    obtain ⟨c, later, hlater, hc, hsqueezed⟩ := hbegins h
    exact readValue_eq_ok_iff.mpr
      ⟨c, _, skipGaps_squeezed_of_eq_cons hc hlater, (hsqueezed hv).1⟩
  case length_lt =>
    intro t v rest h hv
    obtain ⟨c, later, hlater, -, hsqueezed⟩ := hbegins h
    have hskip := length_skipGaps_le t
    rw [hlater, List.length_cons] at hskip
    exact (hsqueezed hv).2.trans_lt hskip

/-- Values without texts are read of the squeezed text as of the text, at any depth. -/
theorem readsTextless_readValue (nesting : Nat) : ReadsTextless (readValue nesting) := by
  induction nesting with
  | zero => exact readsTextless_of_within fun n h => by cases h
  | succ nesting ih =>
    refine readsTextless_of_within ?_
    rintro n ⟨⟩
    exact ih

/-! ### Whole texts -/

/-- A text is a value that gaps come after. -/
theorem read_eq_ok_iff :
    read t = .ok v ↔ ∃ rest, readValue maxNesting t = .ok (v, rest) ∧ skipGaps rest = [] := by
  unfold read
  dsimp only
  cases hvalue : readValue maxNesting t with
  | error e => simp [bind, Except.bind, Except.mapError]
  | ok p =>
    obtain ⟨v', rest⟩ := p
    simp only [readEnd, bind, Except.bind, pure, Except.pure]
    cases hskip : skipGaps rest with
    | nil => simp [Except.mapError, hskip]
    | cons c later => simp [Except.mapError, stopAt, hskip]

theorem forall_isBlank_of_skipGaps (h : skipGaps t = []) : ∀ c ∈ t, isBlank c = true :=
  fun c hc => isBlank_of_isGap (List.dropWhile_eq_nil_iff.mp h c hc)

/-- In front of a value there is no white space but gaps. -/
theorem dropWhile_isBlank (h : isBreak (skipGaps t) = false) :
    t.dropWhile isBlank = skipGaps t := by
  induction t with
  | nil => rfl
  | cons c t ih =>
    cases hgap : isGap c with
    | true =>
      rw [skipGaps_cons_of_isGap hgap] at h ⊢
      rw [List.dropWhile_cons_of_pos (isBlank_of_isGap hgap), ih h]
    | false =>
      rw [skipGaps_cons hgap] at h ⊢
      exact List.dropWhile_cons_of_neg (by simp [show isBlank c = false from h])

/-- A text whose value holds no text is the same value with its white space squeezed. -/
theorem read_squeezed (h : read t = .ok v) (hv : v.isTextless = true) :
    read (squeezed (t.dropWhile isBlank)) = .ok v := by
  obtain ⟨rest, hvalue, hrest⟩ := read_eq_ok_iff.mp h
  have hread := readsTextless_readValue maxNesting
  have hskip : readValue maxNesting (skipGaps t) = .ok (v, rest) := by
    rw [readValue_eq_ok_iff] at hvalue ⊢
    rwa [skipGaps_skipGaps]
  have hnone : squeezed rest = [] := squeezed_append_blanks (forall_isBlank_of_skipGaps hrest) []
  rw [dropWhile_isBlank (hread.isBreak_eq hvalue)]
  exact read_eq_ok_iff.mpr ⟨_, hread.squeezed_eq hskip hv, by rw [hnone]; rfl⟩

end LiveTuner.Json
