import LiveTuner.Json.Record
import LiveTuner.Json.Writer
import LiveTuner.Proofs.Json.Text

/-!
# Written texts and fields

A text can be written in many ways: most characters may stand for themselves or be escaped, and some
escapes can be chosen from. All of them are read as the same text, and the writer's own choice is
one of them. Around the parts of a list or an object there may be any gaps.

An object is read in two ways, as data and as a record of known fields. Either takes one field after
the other, each after a key and a colon.

## Main definitions

* `Json.Stands`, `Json.IsLiteral` — the ways in which a character and a text can be written
* `Json.IsListing` — the texts of a list, in any ways, up to its closing bracket
* `Json.KeyAt` — the next field of an object has a key

## Main results

* `Json.IsLiteral.exists_readString` — any literal of a text is read as the text
* `Json.isLiteral_textChars`, `Json.isListing_itemChars` — the writer writes one of them
* `Json.IsListing.items` — a list of texts is read item by item
* `Json.KeyAt.readMembers`, `Json.KeyAt.readFields` — a field of an object, and of a record
-/

namespace LiveTuner.Json

variable {c : Char} {g g' l s t later rest : List Char} {key : String} {first : Bool}
  {bound nesting : Nat} {v : Json}

/-! ### Gaps -/

/-- All characters are gaps. -/
def AreGaps (l : List Char) : Prop := ∀ c ∈ l, isGap c = true

theorem areGaps_nil : AreGaps [] := List.forall_mem_nil _

theorem skipGaps_append (hg : AreGaps g) : skipGaps (g ++ t) = skipGaps t :=
  List.dropWhile_append_of_pos hg

theorem skipGaps_append_cons (hg : AreGaps g) (hc : isGap c = false) (t : List Char) :
    skipGaps (g ++ c :: t) = c :: t := by
  rw [skipGaps_append hg, skipGaps_cons hc]

/-! ### Literals -/

/-- Characters within quotes stand for a character. -/
inductive Stands : List Char → Char → Prop where
  /-- The character itself. -/
  | plain {c : Char} (hquote : c ≠ '"') (hslash : c ≠ '\\') (hcontrol : ¬ c.toNat < 0x20) :
    Stands [c] c
  /-- An escape of one letter. -/
  | letter {letter c : Char} (h : simpleEscape? letter = some c) : Stands ['\\', letter] c
  /-- An escape of four digits. -/
  | digits {a b d e c : Char} (h : hexNumber? a b d e = some c.toNat) :
    Stands ['\\', 'u', a, b, d, e] c
  /-- Two escapes of four digits, for the halves of a character that is past them. -/
  | halves {a b d e a' b' d' e' c : Char} (hlarge : 0x10000 ≤ c.toNat)
    (hhigh : hexNumber? a b d e = some (0xd800 + (c.toNat - 0x10000) / 0x400))
    (hlow : hexNumber? a' b' d' e' = some (0xdc00 + (c.toNat - 0x10000) % 0x400)) :
    Stands ['\\', 'u', a, b, d, e, '\\', 'u', a', b', d', e'] c

/-- The literal, with its quotes, is one of the text. -/
def IsLiteral (l s : List Char) : Prop :=
  ∃ parts, List.Forall₂ Stands parts s ∧ l = '"' :: (parts.flatten ++ ['"'])

/-- What can be written between quotes is read. -/
theorem Stands.spells_append {part : List Char} (h : Stands part c) (hl : Spells l s) :
    Spells (part ++ l) (c :: s) := by
  cases h with
  | plain hquote hslash hcontrol => exact .plain hquote hslash hcontrol hl
  | letter h => exact .escape (isEscape_simple h) hl
  | digits h =>
    -- No character is one of the halves of another.
    have hvalid := c.valid
    have hhalf : c.toNat < 0xd800 ∨ 0xdfff < c.toNat := hvalid.imp_right And.left
    have hescape := isEscape_hex h (by omega) (by omega)
    rw [Char.ofNat_toNat] at hescape
    exact .escape hescape hl
  | halves hlarge hhigh hlow =>
    have hvalid : c.toNat < 0x110000 := by
      rcases c.valid with h | h
      · exact Nat.lt_trans h (by decide)
      · exact h.2
    have hescape := isEscape_pair hhigh (by omega) (by omega) hlow (by omega)
    have hsum : 0x10000 + (0xd800 + (c.toNat - 0x10000) / 0x400 - 0xd800) * 0x400 +
        (0xdc00 + (c.toNat - 0x10000) % 0x400 - 0xdc00) = c.toNat := by omega
    rw [hsum, Char.ofNat_toNat] at hescape
    exact .escape hescape hl

theorem spells_flatten {parts : List (List Char)} (h : List.Forall₂ Stands parts s) :
    Spells (parts.flatten ++ ['"']) s := by
  induction h with
  | nil => exact .close
  | cons hpart _ ih =>
    rw [List.flatten_cons, List.append_assoc]
    exact hpart.spells_append ih

/-- Any literal of a text is read as the text. -/
theorem IsLiteral.exists_readString {s : String} (h : IsLiteral l s.toList) :
    ∃ body, l = '"' :: body ∧ ∀ rest, readString (body ++ rest) = .ok (s, rest) := by
  obtain ⟨parts, hparts, rfl⟩ := h
  refine ⟨_, rfl, fun rest => ?_⟩
  rw [readString, (spells_flatten hparts).readText]
  simp [Except.map]

/-- Each control character is escaped by a letter or in four digits. -/
theorem hexNumber?_control {n : Nat} (h : n < 0x20) :
    hexNumber? '0' '0' (hexDigit (n / 16)) (hexDigit n) = some n := by
  revert n
  decide

theorem stands_escapedChar (c : Char) : Stands (escapedChar c) c := by
  rw [escapedChar]
  split_ifs with hquote hslash hback hfeed hline hreturn htab hcontrol
  · exact .letter (by rw [hquote]; rfl)
  · exact .letter (by rw [hslash]; rfl)
  · exact .letter (by rw [hback]; rfl)
  · exact .letter (by rw [hfeed]; rfl)
  · exact .letter (by rw [hline]; rfl)
  · exact .letter (by rw [hreturn]; rfl)
  · exact .letter (by rw [htab]; rfl)
  · exact .digits (hexNumber?_control hcontrol)
  · exact .plain hquote hslash hcontrol

/-- What is written for a text is a literal of it. -/
theorem isLiteral_textChars (s : String) : IsLiteral (textChars s) s.toList := by
  refine ⟨s.toList.map escapedChar, ?_, by rw [textChars, List.flatMap_def, List.cons_append]⟩
  rw [List.forall₂_map_left_iff, List.forall₂_same]
  exact fun c _ => stands_escapedChar c

/-! ### Lists of texts -/

/-- The text of a list after its opening bracket, or after an item of it: the texts in it, written
in any way, with any gaps around them. -/
inductive IsListing : Bool → List Char → List String → Prop where
  /-- The closing bracket. -/
  | close {first : Bool} {g : List Char} (hg : AreGaps g) : IsListing first (g ++ [']']) []
  /-- The first item. -/
  | start {g l more : List Char} {s : String} {ss : List String} (hg : AreGaps g)
    (hl : IsLiteral l s.toList) (hmore : IsListing false more ss) :
    IsListing true (g ++ (l ++ more)) (s :: ss)
  /-- A later item. -/
  | comma {g g' l more : List Char} {s : String} {ss : List String} (hg : AreGaps g)
    (hg' : AreGaps g') (hl : IsLiteral l s.toList) (hmore : IsListing false more ss) :
    IsListing false (g ++ ',' :: (g' ++ (l ++ more))) (s :: ss)

/-- Behind another item, what could come first comes after a comma. -/
theorem IsListing.behind {s : String} {ss : List String} (h : IsListing true t (s :: ss)) :
    IsListing false (',' :: t) (s :: ss) := by
  cases h with
  | start hg hl hmore => exact .comma areGaps_nil hg hl hmore

/-- What is written for a list of texts is one of its listings. -/
theorem isListing_itemChars (ss : List String) :
    IsListing true (itemChars (ss.map .string) ++ [']']) ss := by
  induction ss with
  | nil => exact .close areGaps_nil
  | cons s rest ih =>
    cases rest with
    | nil => exact .start areGaps_nil (isLiteral_textChars s) (.close areGaps_nil)
    | cons s' rest =>
      have hlisting := IsListing.start areGaps_nil (isLiteral_textChars s) ih.behind
      simpa [itemChars, chars] using hlisting

/-- A text is a value. -/
theorem readValue_of_readString {s : String} (h : readString t = .ok (s, rest)) :
    readValue nesting ('"' :: t) = .ok (.string s, rest) :=
  readValue_eq_ok_iff.mpr ⟨'"', t, rfl, .text h⟩

theorem IsLiteral.readValue {s : String} (h : IsLiteral l s.toList) (nesting : Nat)
    (rest : List Char) : readValue nesting (l ++ rest) = .ok (.string s, rest) := by
  obtain ⟨body, rfl, hbody⟩ := h.exists_readString
  exact readValue_of_readString (hbody rest)

/-- A list of texts is read item by item. -/
theorem IsListing.items {ss : List String} (h : IsListing first t ss) (rest : List Char) :
    Items (readValue nesting) first (t ++ rest) (ss.map .string) rest := by
  induction h with
  | @close first g hg =>
    refine .nil (.close ?_)
    rw [List.append_assoc, List.singleton_append, skipGaps_append_cons hg rfl]
  | @start g l more s ss hg hl _ ih =>
    obtain ⟨body, rfl, hbody⟩ := hl.exists_readString
    refine .cons (.start ?_ (by decide)) (readValue_of_readString (hbody (more ++ rest))) ih
    rw [List.append_assoc, List.append_assoc, List.cons_append, skipGaps_append_cons hg rfl]
  | @comma g g' l more s ss hg hg' hl _ ih =>
    obtain ⟨body, rfl, hbody⟩ := hl.exists_readString
    have hcomma : skipGaps (g ++ ',' :: (g' ++ ('"' :: body ++ more)) ++ rest) =
        ',' :: (g' ++ '"' :: (body ++ (more ++ rest))) := by
      simp only [List.append_assoc, List.cons_append]
      exact skipGaps_append_cons hg rfl _
    exact .cons (.comma hcomma (skipGaps_append_cons hg' rfl _) (by decide))
      (readValue_of_readString (hbody (more ++ rest))) ih

/-- Each text in a list takes a character, and so does the bracket. -/
theorem IsListing.length_lt {ss : List String} (h : IsListing first t ss) :
    ss.length < t.length := by
  induction h with
  | close => simp
  | start _ hl _ ih =>
    obtain ⟨body, rfl, -⟩ := hl.exists_readString
    simp only [List.length_append, List.length_cons]
    omega
  | comma _ _ _ _ ih =>
    simp only [List.length_append, List.length_cons]
    omega

/-- A list of texts, read as a value. -/
theorem IsListing.readValue {ss : List String} (h : IsListing true t ss) (hg : AreGaps g)
    (nesting : Nat) (rest : List Char) :
    readValue (nesting + 1) (g ++ '[' :: (t ++ rest)) = .ok (.array (ss.map .string), rest) := by
  refine readValue_eq_ok_iff.mpr ⟨'[', t ++ rest, skipGaps_append_cons hg rfl _, .list ?_⟩
  refine (h.items rest).readItems ?_
  have hlength := h.length_lt
  rw [List.length_map, List.length_append]
  omega

/-! ### Fields -/

/-- The next field of an object has the key, and its value stands where the rest of the text
begins. -/
def KeyAt (first : Bool) (t : List Char) (key : String) (later : List Char) : Prop :=
  ∃ u w, nextKey first t = .ok (true, u) ∧ readString u = .ok (key, w) ∧
    readColon w = .ok ((), later)

theorem readColon_append (hg : AreGaps g) (later : List Char) :
    readColon (g ++ ':' :: later) = .ok ((), later) := by
  rw [readColon, skipGaps_append_cons hg rfl]
  rfl

/-- The first key comes at once. -/
theorem keyAt_first (hg : AreGaps g) (hl : IsLiteral l key.toList) (hg' : AreGaps g')
    (later : List Char) : KeyAt true (g ++ (l ++ (g' ++ ':' :: later))) key later := by
  obtain ⟨body, rfl, hbody⟩ := hl.exists_readString
  have hquote := skipGaps_append_cons hg (c := '"') rfl (body ++ (g' ++ ':' :: later))
  refine ⟨_, _, ?_, hbody _, readColon_append hg' later⟩
  rw [nextKey, List.cons_append, hquote]
  rfl

/-- Any other comes after a comma. -/
theorem keyAt_later {before : List Char} (hbefore : AreGaps before) (hg : AreGaps g)
    (hl : IsLiteral l key.toList) (hg' : AreGaps g') (later : List Char) :
    KeyAt false (before ++ ',' :: (g ++ (l ++ (g' ++ ':' :: later)))) key later := by
  obtain ⟨body, rfl, hbody⟩ := hl.exists_readString
  have hquote := skipGaps_append_cons hg (c := '"') rfl (body ++ (g' ++ ':' :: later))
  refine ⟨_, _, ?_, hbody _, readColon_append hg' later⟩
  rw [nextKey, skipGaps_append_cons hbefore rfl, List.cons_append]
  simp only [hquote]
  rfl

theorem nextKey_close (hg : AreGaps g) (first : Bool) (rest : List Char) :
    nextKey first (g ++ '\x7d' :: rest) = .ok (false, rest) := by
  rw [nextKey, skipGaps_append_cons hg rfl]
  rfl

/-- A field of an object is read as data, and then the others are. -/
theorem KeyAt.readMembers {readItem : List Char → Reading Json} (h : KeyAt first t key later)
    (hv : readItem later = .ok (v, rest)) (bound : Nat) :
    readMembers readItem (bound + 1) first t =
      (Json.readMembers readItem bound false rest).map
        fun (members, rest) => ((key, v) :: members, rest) := by
  obtain ⟨u, w, hnext, hkey, hcolon⟩ := h
  rw [Json.readMembers]
  simp only [bind, Except.bind, hnext, hkey, hcolon, hv]
  cases Json.readMembers readItem bound false rest <;> rfl

theorem readMembers_close {readItem : List Char → Reading Json} (hg : AreGaps g) (bound : Nat)
    (first : Bool) (rest : List Char) :
    readMembers readItem (bound + 1) first (g ++ '\x7d' :: rest) = .ok ([], rest) := by
  rw [readMembers, nextKey_close hg]
  rfl

/-- An object of one field. -/
theorem read_singleton {before value after : List Char} (hbefore : AreGaps before)
    (hkey : ∀ later, KeyAt true (l ++ ':' :: later) key later)
    (hv : ∀ rest, readValue (maxNesting - 1) (value ++ rest) = .ok (v, rest)) (hg : AreGaps g)
    (hafter : AreGaps after) :
    read (before ++ '\x7b' :: (l ++ ':' :: (value ++ (g ++ '\x7d' :: after)))) =
      .ok (.object [(key, v)]) := by
  have hmembers : readMembers (readValue (maxNesting - 1))
      ((l ++ ':' :: (value ++ (g ++ '\x7d' :: after))).length + 1) true
      (l ++ ':' :: (value ++ (g ++ '\x7d' :: after))) = .ok ([(key, v)], after) := by
    -- There is a character for the field and one for the end.
    obtain ⟨bound, hbound⟩ : ∃ bound, (l ++ ':' :: (value ++ (g ++ '\x7d' :: after))).length =
        bound + 1 := Nat.exists_eq_succ_of_ne_zero (by simp)
    rw [hbound, (hkey _).readMembers (hv _), readMembers_close hg]
    rfl
  refine read_eq_ok_iff.mpr ⟨after, readValue_eq_ok_iff.mpr ⟨_, _, ?_, .object hmembers⟩, ?_⟩
  · exact skipGaps_append_cons hbefore rfl _
  · exact List.dropWhile_eq_nil_iff.mpr hafter

variable {σ α : Type} {shape : RecordShape σ α} {field : FieldReader σ} {known known' : σ}

/-- A field of a record is read into what is known of it, and then the others are. -/
theorem KeyAt.readFields (h : KeyAt first t key later)
    (hfield : shape.fields.find? (·.name = key) = some field) (hnew : field.isRead known = false)
    (hvalue : field.readInto known later = .ok (known', rest)) (bound : Nat) :
    readFields shape (bound + 1) first known t = Json.readFields shape bound false known' rest := by
  obtain ⟨u, w, hnext, hkey, hcolon⟩ := h
  rw [Json.readFields]
  simp only [bind, Except.bind, hnext, hkey, hfield, hnew, hcolon, hvalue, Bool.false_eq_true,
    if_false]

theorem readFields_close (hg : AreGaps g) (bound : Nat) (first : Bool) (known : σ)
    (rest : List Char) :
    readFields shape (bound + 1) first known (g ++ '\x7d' :: rest) =
      .ok (.ok known, '\x7d' :: rest) := by
  rw [readFields, nextKey_close hg]
  rfl

/-- A text is read where a record has one. -/
theorem IsLiteral.readStringField {s : String} (h : IsLiteral l s.toList) (hg : AreGaps g)
    (rest : List Char) : readStringField (g ++ (l ++ rest)) = .ok (s, rest) := by
  obtain ⟨body, rfl, hbody⟩ := h.exists_readString
  rw [Json.readStringField, List.cons_append, skipGaps_append_cons hg rfl]
  exact hbody rest

/-- A record that stands as an object, with any gaps around it. -/
theorem readWholeRecord_object {before after : List Char} {record : α} (hbefore : AreGaps before)
    (hfields : readFields shape (t.length + 1) true shape.start t =
      .ok (.ok known, '\x7d' :: after))
    (hcomplete : shape.complete known = .ok record) (hafter : AreGaps after) :
    readWholeRecord shape (before ++ '\x7b' :: t) = .ok record := by
  have hend : readEnd after = .ok () := by
    rw [readEnd, skipGaps, List.dropWhile_eq_nil_iff.mpr hafter]
  have hrecord : readRecord shape (before ++ '\x7b' :: t) = .ok (record, after) := by
    rw [readRecord, skipGaps_append_cons hbefore rfl]
    simp [bind, Except.bind, hfields, hcomplete, endOfFields, skipGaps_cons, isGap, closeRecord]
  rw [readWholeRecord, hrecord]
  simp [bind, Except.bind, hend, pure, Except.pure, Except.mapError]

end LiveTuner.Json
