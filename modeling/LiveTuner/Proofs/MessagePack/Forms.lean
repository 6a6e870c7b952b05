import LiveTuner.MessagePack.Reader
import LiveTuner.Proofs.MessagePack.Token
import LiveTuner.Proofs.Outcome
import Mathlib.Data.List.Induction

/-!
# The octets of a token

With what octets a token is spelled can be said without a reader: it is a marker with the octets
that belong to it. Some markers hold a number themselves; what follows the others is told by a
table. A reader that finds something at the start of a payload has found octets that spell it, and
there is no choice which ones: no payload begins with two tokens of different extent.

## Main definitions

* `MessagePack.Finds` — a reader finds just what octets spell
* `MessagePack.forms`, `MessagePack.Form.Fills` — the markers and what follows them
* `MessagePack.IsToken` — octets are a token

## Main results

* `MessagePack.Finds.append_inj` — a reader leaves no choice where it ends
* `MessagePack.finds_readToken` — a token is read where octets of it are
-/

namespace LiveTuner.MessagePack

variable {payload octets octets' rest rest' : List UInt8} {width length n : Nat}
  {marker : UInt8} {token : Token} {α : Type} {reader : List UInt8 → Reading α}
  {spells : List UInt8 → α → Prop}

/-! ### Readers -/

/-- A reader finds at the start of a payload what octets there spell, and reads no further. -/
def Finds (reader : List UInt8 → Reading α) (spells : List UInt8 → α → Prop) : Prop :=
  ∀ payload v rest, reader payload = .ok (v, rest) ↔
    ∃ octets, payload = octets ++ rest ∧ spells octets v

/-- What a reader finds leaves no choice where it ends, nor what it is. -/
theorem Finds.append_inj {v w : α} (h : Finds reader spells) (hv : spells octets v)
    (hw : spells octets' w) (heq : octets ++ rest = octets' ++ rest') :
    octets = octets' ∧ v = w ∧ rest = rest' := by
  have hread := (h _ _ rest).mpr ⟨octets, rfl, hv⟩
  rw [heq, (h _ _ rest').mpr ⟨octets', rfl, hw⟩] at hread
  cases hread
  exact ⟨List.append_cancel_right heq, rfl, rfl⟩

/-! ### Octets -/

theorem splitOctets_eq_some_iff : splitOctets length payload = some (octets, rest) ↔
    payload = octets ++ rest ∧ octets.length = length := by
  constructor
  · intro h
    induction length generalizing payload octets with
    | zero =>
      cases h
      exact ⟨rfl, rfl⟩
    | succ length ih =>
      cases payload with
      | nil => cases h
      | cons b payload =>
        obtain ⟨⟨front, after⟩, hsplit, h⟩ := Option.map_eq_some_iff.mp h
        cases h
        obtain ⟨rfl, rfl⟩ := ih hsplit
        exact ⟨rfl, rfl⟩
  · rintro ⟨rfl, rfl⟩
    exact splitOctets_append octets rest

theorem readBody_eq_ok_iff : readBody length payload = .ok (octets, rest) ↔
    payload = octets ++ rest ∧ octets.length = length := by
  rw [← splitOctets_eq_some_iff, readBody]
  cases splitOctets length payload with
  | none => simp
  | some split => simp [Prod.ext_iff]

theorem readNat_eq_ok_iff : readNat width payload = .ok (n, rest) ↔
    ∃ octets, payload = octets ++ rest ∧ octets.length = width ∧ bigEndian octets = n := by
  rw [readNat]
  constructor
  · intro h
    split at h
    · next octets after hsplit =>
      cases h
      obtain ⟨rfl, rfl⟩ := splitOctets_eq_some_iff.mp hsplit
      exact ⟨octets, rfl, rfl, rfl⟩
    · cases h
  · rintro ⟨octets, rfl, rfl, rfl⟩
    rw [splitOctets_append]

theorem bigEndian_lt (octets : List UInt8) : bigEndian octets < 2 ^ (8 * octets.length) := by
  -- From the last octet on, as each one more is the least significant.
  induction octets using List.reverseRecOn with
  | nil => exact Nat.one_pos
  | append_singleton octets b ih =>
    have hb : b.toNat < 256 := b.toNat_lt
    have hpow : 2 ^ (8 * (octets.length + 1)) = 2 ^ (8 * octets.length) * 256 := by
      rw [Nat.mul_add, Nat.pow_add]
    rw [bigEndian] at ih ⊢
    rw [List.foldl_append, List.length_append, List.length_singleton, hpow]
    simp only [List.foldl_cons, List.foldl_nil]
    omega

/-! ### Forms -/

/-- What follows a marker. -/
inductive Form where
  /-- Nothing. -/
  | lone (token : Token)
  /-- An integer without a sign of so many octets. -/
  | unsigned (width : Nat)
  /-- An integer with a sign of so many octets. -/
  | signed (width : Nat)
  /-- A number of so many octets, which spell what it is made of. -/
  | real (width : Nat) (make : Nat → Binary64)
  /-- A length of so many octets, and as many octets as it says. -/
  | body (width : Nat) (make : List UInt8 → Token)
  /-- A length of so many octets. -/
  | head (width : Nat) (make : Nat → Token)

/-- The markers between those that hold a number themselves, with what follows them. One octet is no
marker. -/
def forms : List (UInt8 × Form) :=
  [(0xc0, .lone .nil), (0xc2, .lone (.bool false)), (0xc3, .lone (.bool true)),
    (0xc4, .body 1 .octets), (0xc5, .body 2 .octets), (0xc6, .body 4 .octets),
    (0xc7, .head 1 .extension), (0xc8, .head 2 .extension), (0xc9, .head 4 .extension),
    (0xca, .real 4 .ofSingleBits), (0xcb, .real 8 .ofBits),
    (0xcc, .unsigned 1), (0xcd, .unsigned 2), (0xce, .unsigned 4), (0xcf, .unsigned 8),
    (0xd0, .signed 1), (0xd1, .signed 2), (0xd2, .signed 4), (0xd3, .signed 8),
    (0xd4, .lone (.extension 1)), (0xd5, .lone (.extension 2)), (0xd6, .lone (.extension 4)),
    (0xd7, .lone (.extension 8)), (0xd8, .lone (.extension 16)),
    (0xd9, .body 1 .text), (0xda, .body 2 .text), (0xdb, .body 4 .text),
    (0xdc, .head 2 .array), (0xdd, .head 4 .array), (0xde, .head 2 .map), (0xdf, .head 4 .map)]

/-- Octets behind a marker make up a token. -/
inductive Form.Fills : Form → List UInt8 → Token → Prop where
  /-- There are none. -/
  | lone {token : Token} : Fills (.lone token) [] token
  /-- They spell an integer. -/
  | unsigned {octets : List UInt8} {w : WireInteger} (hw : w.val = bigEndian octets) :
    Fills (.unsigned octets.length) octets (.integer w)
  /-- They spell an integer, of which the upper half of the range lies below zero. -/
  | signed {octets : List UInt8} {w : WireInteger}
    (hw : w.val = (bigEndian octets : Int).bmod (2 ^ (8 * octets.length))) :
    Fills (.signed octets.length) octets (.integer w)
  /-- They spell a number. -/
  | real {octets : List UInt8} {make : Nat → Binary64} :
    Fills (.real octets.length make) octets (.real (make (bigEndian octets)))
  /-- They are a length and so many octets. -/
  | body {head octets : List UInt8} {make : List UInt8 → Token}
    (hlength : octets.length = bigEndian head) :
    Fills (.body head.length make) (head ++ octets) (make octets)
  /-- They spell a length. -/
  | head {octets : List UInt8} {make : Nat → Token} :
    Fills (.head octets.length make) octets (make (bigEndian octets))

/-- Reads what follows a marker. -/
def Form.read : Form → List UInt8 → Reading Token
  | lone token, payload => .ok (token, payload)
  | unsigned width, payload => readHead (.integer <| .ofUInt64 <| UInt64.ofNat ·) width payload
  | signed width, payload => readHead (.integer <| withSign width ·) width payload
  | real width make, payload => readHead (.real <| make ·) width payload
  | body width make, payload => readSized make width payload
  | head width make, payload => readHead make width payload

/-- No integer has more than eight octets. -/
theorem width_of_mem_forms
    (h : (marker, .unsigned width) ∈ forms ∨ (marker, .signed width) ∈ forms) :
    0 < width ∧ width ≤ 8 := by
  simp [forms] at h
  omega

theorem readAfterMarker_of_mem_forms {form : Form} (h : (marker, form) ∈ forms)
    (payload : List UInt8) : readAfterMarker marker payload = form.read payload := by
  -- The reader decides by the marker, so it has to be the one of an entry before it can be run.
  have hall : ∀ entry ∈ forms, readAfterMarker entry.1 payload = entry.2.read payload := by
    rw [forms]
    repeat refine List.forall_mem_cons.mpr ⟨rfl, ?_⟩
    exact List.forall_mem_nil _
  exact hall (marker, form) h

theorem val_ofUInt64_ofNat (h : n < 0x1_0000_0000_0000_0000) :
    (WireInteger.ofUInt64 (UInt64.ofNat n)).val = n :=
  congrArg Nat.cast (UInt64.toNat_ofNat_of_lt' h)

/-- A natural number of so many octets stands for the integer with a sign that leaves the same
remainder. -/
theorem val_withSign (hwidth : 0 < width) (hwidth' : width ≤ 8) (h : n < 2 ^ (8 * width)) :
    (withSign width n).val = (n : Int).bmod (2 ^ (8 * width)) := by
  have htwice : 2 ^ (8 * width) = 2 * 2 ^ (8 * width - 1) := by
    rw [← Nat.pow_succ']
    congr 1
    omega
  have hmax : 2 ^ (8 * width - 1) ≤ 2 ^ 63 := Nat.pow_le_pow_right (by decide) (by omega)
  rw [withSign, Nat.one_shiftLeft, Nat.one_shiftLeft, htwice]
  rw [htwice] at h
  -- From here on the width does not matter, only that it is one of at most eight octets.
  generalize 2 ^ (8 * width - 1) = half at h hmax ⊢
  have hmod : ((n : Int) % (2 * half : Nat)) = n := Int.emod_eq_of_lt (by omega) (by omega)
  have hmiddle : (((2 * half : Nat) : Int) + 1) / 2 = half := by omega
  rw [Int.bmod_def, hmod, hmiddle]
  by_cases hlow : n < half
  · rw [if_pos hlow, if_pos (by omega)]
    exact Int64.toInt_ofInt_of_le (by omega) (by omega)
  · rw [if_neg hlow, if_neg (by omega)]
    exact Int64.toInt_ofInt_of_le (by omega) (by omega)

theorem readHead_eq_ok_iff {make : Nat → Token} :
    readHead make width payload = .ok (token, rest) ↔
      ∃ octets, payload = octets ++ rest ∧ octets.length = width ∧
        make (bigEndian octets) = token := by
  rw [readHead]
  constructor
  · intro h
    obtain ⟨⟨n, after⟩, hn, h⟩ := exists_of_map_eq_ok h
    cases h
    obtain ⟨octets, hpayload, hlength, rfl⟩ := readNat_eq_ok_iff.mp hn
    exact ⟨octets, hpayload, hlength, rfl⟩
  · rintro ⟨octets, hpayload, hlength, rfl⟩
    rw [readNat_eq_ok_iff.mpr ⟨octets, hpayload, hlength, rfl⟩]
    rfl

theorem readSized_eq_ok_iff {make : List UInt8 → Token} :
    readSized make width payload = .ok (token, rest) ↔
      ∃ head octets, payload = head ++ octets ++ rest ∧ head.length = width ∧
        octets.length = bigEndian head ∧ make octets = token := by
  rw [readSized]
  constructor
  · intro h
    split at h
    · next length after hlength =>
      obtain ⟨head, rfl, hwidth, rfl⟩ := readNat_eq_ok_iff.mp hlength
      obtain ⟨⟨octets, after⟩, hbody, h⟩ := exists_of_map_eq_ok h
      cases h
      obtain ⟨rfl, hoctets⟩ := readBody_eq_ok_iff.mp hbody
      exact ⟨head, octets, (List.append_assoc ..).symm, hwidth, hoctets, rfl⟩
    · cases h
  · rintro ⟨head, octets, rfl, hwidth, hlength, rfl⟩
    rw [readNat_eq_ok_iff.mpr ⟨head, List.append_assoc .., hwidth, rfl⟩]
    dsimp only
    rw [readBody_eq_ok_iff.mpr ⟨rfl, hlength⟩]
    rfl

theorem Form.exists_fills_of_read {form : Form} (h : (marker, form) ∈ forms)
    (hread : form.read payload = .ok (token, rest)) :
    ∃ octets, payload = octets ++ rest ∧ form.Fills octets token := by
  cases form with
  | lone token =>
    cases hread
    exact ⟨[], rfl, .lone⟩
  | unsigned width =>
    rw [Form.read, readHead_eq_ok_iff] at hread
    obtain ⟨octets, rfl, rfl, rfl⟩ := hread
    have hlt := Nat.lt_of_lt_of_le (bigEndian_lt octets)
      (Nat.pow_le_pow_right (by decide) (Nat.mul_le_mul_left 8 (width_of_mem_forms (.inl h)).2))
    exact ⟨octets, rfl, .unsigned (val_ofUInt64_ofNat hlt)⟩
  | signed width =>
    rw [Form.read, readHead_eq_ok_iff] at hread
    obtain ⟨octets, rfl, rfl, rfl⟩ := hread
    obtain ⟨hpos, hle⟩ := width_of_mem_forms (.inr h)
    exact ⟨octets, rfl, .signed (val_withSign hpos hle (bigEndian_lt octets))⟩
  | real width make =>
    rw [Form.read, readHead_eq_ok_iff] at hread
    obtain ⟨octets, rfl, rfl, rfl⟩ := hread
    exact ⟨octets, rfl, .real⟩
  | body width make =>
    rw [Form.read, readSized_eq_ok_iff] at hread
    obtain ⟨head, octets, rfl, rfl, hlength, rfl⟩ := hread
    exact ⟨head ++ octets, rfl, .body hlength⟩
  | head width make =>
    rw [Form.read, readHead_eq_ok_iff] at hread
    obtain ⟨octets, rfl, rfl, rfl⟩ := hread
    exact ⟨octets, rfl, .head⟩

theorem Form.Fills.read {form : Form} (h : (marker, form) ∈ forms)
    (hfills : form.Fills octets token) (rest : List UInt8) :
    form.read (octets ++ rest) = .ok (token, rest) := by
  cases hfills with
  | lone => rfl
  | unsigned hw =>
    rw [Form.read, readHead_eq_ok_iff]
    exact ⟨octets, rfl, rfl, congrArg Token.integer (ofUInt64_ofNat hw.symm)⟩
  | signed hw =>
    obtain ⟨hpos, hle⟩ := width_of_mem_forms (.inr h)
    have hval := (val_withSign hpos hle (bigEndian_lt octets)).trans hw.symm
    rw [Form.read, readHead_eq_ok_iff]
    exact ⟨octets, rfl, rfl, congrArg Token.integer (WireInteger.eq_of_val_eq hval)⟩
  | real =>
    rw [Form.read, readHead_eq_ok_iff]
    exact ⟨octets, rfl, rfl, rfl⟩
  | @body head octets _ hlength =>
    rw [Form.read, readSized_eq_ok_iff]
    exact ⟨head, octets, rfl, rfl, hlength, rfl⟩
  | head =>
    rw [Form.read, readHead_eq_ok_iff]
    exact ⟨octets, rfl, rfl, rfl⟩

/-! ### Tokens -/

/-- Octets are a token. -/
inductive IsToken : List UInt8 → Token → Prop where
  /-- A small integer is its own marker. -/
  | small {marker : UInt8} {w : WireInteger} (hmarker : marker.toNat < 0x80)
    (hw : w.val = marker.toNat) : IsToken [marker] (.integer w)
  /-- So is a negative one close to zero. -/
  | negative {marker : UInt8} {w : WireInteger} (hmarker : 0xe0 ≤ marker.toNat)
    (hw : w.val = marker.toNat - 0x100) : IsToken [marker] (.integer w)
  /-- The marker tells the number of a map's few keys. -/
  | shortMap {marker : UInt8} {length : Nat} (hlength : length < 0x10)
    (hmarker : marker.toNat = 0x80 + length) : IsToken [marker] (.map length)
  /-- The marker tells the number of a sequence's few items. -/
  | shortArray {marker : UInt8} {length : Nat} (hlength : length < 0x10)
    (hmarker : marker.toNat = 0x90 + length) : IsToken [marker] (.array length)
  /-- The marker tells the number of a text's few octets. -/
  | shortText {marker : UInt8} {octets : List UInt8} (hlength : octets.length < 0x20)
    (hmarker : marker.toNat = 0xa0 + octets.length) : IsToken (marker :: octets) (.text octets)
  /-- The octets after any other marker make up the token. -/
  | form {marker : UInt8} {form : Form} {octets : List UInt8} {token : Token}
    (hform : (marker, form) ∈ forms) (hfills : form.Fills octets token) :
    IsToken (marker :: octets) token

/-- Between the markers that hold a number themselves, only one octet is no marker. -/
theorem marker_cases (marker : UInt8) : marker.toNat < 0xc0 ∨ 0xe0 ≤ marker.toNat ∨
    marker = 0xc1 ∨ ∃ form, (marker, form) ∈ forms := by
  -- There are only 32 octets to look up.
  have hall : ∀ k : Fin 32, UInt8.ofNat (0xc0 + k) = 0xc1 ∨
      UInt8.ofNat (0xc0 + k) ∈ forms.map Prod.fst := by decide
  rcases Nat.lt_or_ge marker.toNat 0xc0 with hlow | hlow
  · exact .inl hlow
  rcases Nat.lt_or_ge marker.toNat 0xe0 with hhigh | hhigh
  · have hmarker := hall ⟨marker.toNat - 0xc0, by omega⟩
    rw [Nat.add_sub_cancel' hlow, UInt8.ofNat_toNat] at hmarker
    refine .inr (.inr (hmarker.imp_right fun hmem => ?_))
    obtain ⟨⟨_, form⟩, hform, rfl⟩ := List.mem_map.mp hmem
    exact ⟨form, hform⟩
  · exact .inr (.inl hhigh)

theorem val_withSign_one (hmarker : 0xe0 ≤ marker.toNat) :
    (withSign 1 marker.toNat).val = marker.toNat - 0x100 := by
  have hlt := marker.toNat_lt
  rw [val_withSign (by decide) (by decide) hlt]
  simp only [Nat.reducePow, Nat.reduceMul, Int.bmod_def, Nat.cast_ofNat]
  omega

theorem exists_isToken_of_readToken (h : readToken payload = .ok (token, rest)) :
    ∃ octets, payload = octets ++ rest ∧ IsToken octets token := by
  cases payload with
  | nil => cases h
  | cons marker payload =>
    rw [readToken] at h
    by_cases hform : ∃ form, (marker, form) ∈ forms
    · obtain ⟨form, hform⟩ := hform
      rw [readAfterMarker_of_mem_forms hform] at h
      obtain ⟨octets, rfl, hfills⟩ := Form.exists_fills_of_read hform h
      exact ⟨marker :: octets, rfl, .form hform hfills⟩
    -- The marker holds a number, or is none.
    · have hcases := marker_cases marker
      rw [or_iff_left hform] at hcases
      rw [readAfterMarker] at h
      dsimp only at h
      split_ifs at h with hsmall hmap harray htext hnegative
      · cases h
        exact ⟨[marker], rfl, .small hsmall (val_ofUInt64_ofNat (by omega))⟩
      · cases h
        exact ⟨[marker], rfl, .shortMap (by omega) (by omega)⟩
      · cases h
        exact ⟨[marker], rfl, .shortArray (by omega) (by omega)⟩
      · obtain ⟨⟨octets, after⟩, hbody, h⟩ := exists_of_map_eq_ok h
        cases h
        obtain ⟨rfl, hlength⟩ := readBody_eq_ok_iff.mp hbody
        exact ⟨marker :: octets, rfl, .shortText (by omega) (by omega)⟩
      · cases h
        exact ⟨[marker], rfl, .negative hnegative (val_withSign_one hnegative)⟩
      · obtain hlow | hhigh | rfl := hcases
        · exact absurd hlow htext
        · exact absurd hhigh hnegative
        · cases h

theorem IsToken.readToken (h : IsToken octets token) (rest : List UInt8) :
    MessagePack.readToken (octets ++ rest) = .ok (token, rest) := by
  cases h with
  | small hmarker hw =>
    rw [List.singleton_append, readToken_small hmarker, ofUInt64_ofNat hw.symm]
  | negative hmarker hw =>
    have hval := (val_withSign_one hmarker).trans hw.symm
    rw [List.singleton_append, readToken_negative hmarker, WireInteger.eq_of_val_eq hval]
  | shortMap hlength hmarker => exact readToken_shortMap hlength hmarker
  | shortArray hlength hmarker => exact readToken_shortArray hlength hmarker
  | shortText hlength hmarker => exact readToken_shortText hlength hmarker
  | form hform hfills =>
    rw [List.cons_append, MessagePack.readToken, readAfterMarker_of_mem_forms hform]
    exact hfills.read hform rest

/-- A token is read where octets of it are. -/
theorem finds_readToken : Finds readToken IsToken := by
  intro payload token rest
  constructor
  · exact exists_isToken_of_readToken
  · rintro ⟨octets, rfl, htoken⟩
    exact htoken.readToken rest

theorem exists_isToken_of_bind_eq_ok {f : Token × List UInt8 → Except Fault α} {x : α}
    (h : (readToken payload).bind f = .ok x) :
    ∃ octets token rest, payload = octets ++ rest ∧ IsToken octets token ∧
      f (token, rest) = .ok x := by
  obtain ⟨⟨token, rest⟩, hread, h⟩ := exists_of_bind_eq_ok h
  obtain ⟨octets, hpayload, htoken⟩ := exists_isToken_of_readToken hread
  exact ⟨octets, token, rest, hpayload, htoken, h⟩

end LiveTuner.MessagePack
