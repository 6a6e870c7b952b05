import LiveTuner.Json.Reader
import LiveTuner.Proofs.MessagePack.Data
import LiveTuner.Proofs.MessagePack.Forms

/-!
# The octets of a value

A value is spelled by a token with the values that its head counts behind it. A reader that finds a
value at the start of a payload has found octets that spell it, so here, too, there is no choice
where it ends.

Not everything that can be spelled is a data value. Octets and extensions are none, and keys are
texts; behind the first key of a map, though, octets that spell a text will do for one.

## Main definitions

* `MessagePack.Row` — octets spell one thing behind the other
* `MessagePack.IsKey`, `MessagePack.IsObject` — octets spell a key, and the members of a map
* `MessagePack.Spells` — octets spell a data value

## Main results

* `MessagePack.finds_readJsonWithin` — a data value is read where octets are that spell it
-/

namespace LiveTuner.MessagePack

variable {payload octets rest : List UInt8} {nesting : Nat} {token : Token} {α : Type}
  {reader : List UInt8 → Reading α} {spells : List UInt8 → α → Prop}

/-! ### Rows -/

/-- Octets spell one thing behind the other. -/
inductive Row (spells : List UInt8 → α → Prop) : List UInt8 → List α → Prop where
  /-- None. -/
  | nil : Row spells [] []
  /-- One in front of the others. -/
  | cons {octets more : List UInt8} {v : α} {vs : List α} (hv : spells octets v)
    (hvs : Row spells more vs) : Row spells (octets ++ more) (v :: vs)

/-- Items are found one behind the other. -/
theorem Finds.readItems (h : Finds reader spells) (count : Nat) :
    Finds (MessagePack.readItems reader count)
      fun octets vs => Row spells octets vs ∧ vs.length = count := by
  induction count with
  | zero =>
    intro payload vs rest
    constructor
    · intro hread
      cases hread
      exact ⟨[], rfl, .nil, rfl⟩
    · rintro ⟨octets, rfl, hrow, hlength⟩
      cases hrow with
      | nil => rfl
      | cons => cases hlength
  | succ count ih =>
    intro payload vs rest
    constructor
    · intro hread
      obtain ⟨⟨v, after⟩, hfirst, hread⟩ := exists_of_bind_eq_ok hread
      obtain ⟨⟨vs, after⟩, hmore, hread⟩ := exists_of_bind_eq_ok hread
      cases hread
      obtain ⟨octets, rfl, hv⟩ := (h _ _ _).mp hfirst
      obtain ⟨more, rfl, hvs, rfl⟩ := (ih _ _ _).mp hmore
      exact ⟨octets ++ more, (List.append_assoc ..).symm, .cons hv hvs, rfl⟩
    · rintro ⟨_, rfl, hrow, hlength⟩
      cases hrow with
      | nil => cases hlength
      | @cons octets more v vs hv hvs =>
        have hfirst := (h _ _ (more ++ rest)).mpr ⟨octets, rfl, hv⟩
        have hmore := (ih _ _ rest).mpr ⟨more, rfl, hvs, Nat.succ.inj hlength⟩
        rw [List.append_assoc, MessagePack.readItems, hfirst]
        simp only [bind, Except.bind, hmore, pure, Except.pure]

/-! ### Keys -/

/-- Octets spell a key: they are a text or, behind the first key, octets that spell one. -/
inductive IsKey (first : Bool) : List UInt8 → String → Prop where
  /-- A text. -/
  | text {octets : List UInt8} {key : String}
    (htoken : IsToken octets (.text (Utf8.encode key.toList))) : IsKey first octets key
  /-- Octets that spell a text. -/
  | octets {octets : List UInt8} {key : String} (hfirst : first = false)
    (htoken : IsToken octets (.octets (Utf8.encode key.toList))) : IsKey first octets key

theorem textOf_eq_ok_iff {text : String} :
    textOf octets = .ok text ↔ octets = Utf8.encode text.toList := by
  rw [← Utf8.decode_eq_ok_iff, textOf]
  cases Utf8.decode octets with
  | error fault => simp
  | ok chars =>
    rw [Except.ok.injEq, Except.ok.injEq]
    constructor
    · rintro rfl
      exact String.toList_ofList.symm
    · rintro rfl
      exact String.ofList_toList

theorem stopAtToken_ne_ok {expected : Expected} {x : α} :
    stopAtToken nesting token expected ≠ .ok x := by
  intro h
  cases token with
  | text octets =>
    obtain ⟨text, -, h⟩ := exists_of_bind_eq_ok h
    cases h
  | array | map | extension =>
    simp only [stopAtToken] at h
    split_ifs at h
    all_goals cases h
  | _ => cases h

theorem finds_readFirstKey (nesting : Nat) : Finds (readFirstKey nesting) (IsKey true) := by
  intro payload key rest
  rw [readFirstKey]
  constructor
  · intro h
    obtain ⟨octets, token, after, rfl, htoken, h⟩ := exists_isToken_of_bind_eq_ok h
    cases token with
    | text body =>
      obtain ⟨text, htext, h⟩ := exists_of_bind_eq_ok h
      cases h
      rw [textOf_eq_ok_iff] at htext
      exact ⟨octets, rfl, .text (htext ▸ htoken)⟩
    | _ => exact absurd h stopAtToken_ne_ok
  · rintro ⟨octets, rfl, hkey⟩
    cases hkey with
    | text htoken =>
      rw [htoken.readToken rest]
      simp only [bind, Except.bind, textOf_encode, pure, Except.pure]
    | octets hfirst => cases hfirst

theorem finds_readLaterKey (nesting : Nat) : Finds (readLaterKey nesting) (IsKey false) := by
  intro payload key rest
  rw [readLaterKey]
  constructor
  · intro h
    obtain ⟨octets, token, after, rfl, htoken, h⟩ := exists_isToken_of_bind_eq_ok h
    cases token with
    | text body =>
      obtain ⟨text, htext, h⟩ := exists_of_bind_eq_ok h
      cases h
      rw [textOf_eq_ok_iff] at htext
      exact ⟨octets, rfl, .text (htext ▸ htoken)⟩
    -- Behind the first key the reader takes octets for a text if they spell one.
    | octets body =>
      dsimp only at h
      split at h
      · next text htext =>
        cases h
        rw [← String.toList_ofList (l := text), Utf8.decode_eq_ok_iff] at htext
        exact ⟨octets, rfl, .octets rfl (htext ▸ htoken)⟩
      · cases h
    | _ => exact absurd h stopAtToken_ne_ok
  · rintro ⟨octets, rfl, hkey⟩
    cases hkey with
    | text htoken =>
      rw [htoken.readToken rest]
      simp only [bind, Except.bind, textOf_encode, pure, Except.pure]
    | octets _ htoken =>
      rw [htoken.readToken rest]
      simp only [bind, Except.bind, Utf8.decode_encode, String.ofList_toList, pure, Except.pure]

/-! ### Maps -/

/-- Octets spell a key and a value under it. -/
def IsMember (first : Bool) (spells : List UInt8 → Json → Prop) (octets : List UInt8)
    (member : String × Json) : Prop :=
  ∃ key v, octets = key ++ v ∧ IsKey first key member.1 ∧ spells v member.2

/-- Octets spell the keys and values of a map with so many of them. Under a key that comes again
stands what came last. -/
inductive IsObject (spells : List UInt8 → Json → Prop) :
    Nat → List UInt8 → List (String × Json) → Prop where
  /-- There are none. -/
  | empty : IsObject spells 0 [] []
  /-- There is a first key, and others behind it. -/
  | members {octets more : List UInt8} {member : String × Json} {members : List (String × Json)}
    (hfirst : IsMember true spells octets member)
    (hmore : Row (IsMember false spells) more members) :
    IsObject spells (members.length + 1) (octets ++ more)
      (Json.ofMembers (member :: members))

/-- Reads a key and the value under it. -/
def readMember (readKey : List UInt8 → Reading String) (reader : List UInt8 → Reading Json)
    (payload : List UInt8) : Except Fault ((String × Json) × List UInt8) := do
  let (key, rest) ← readKey payload
  let (v, rest) ← reader rest
  pure ((key, v), rest)

theorem Finds.readMember {first : Bool} {readKey : List UInt8 → Reading String}
    {reader : List UInt8 → Reading Json} {spells : List UInt8 → Json → Prop}
    (hkey : Finds readKey (IsKey first)) (h : Finds reader spells) :
    Finds (MessagePack.readMember readKey reader) (IsMember first spells) := by
  intro payload member rest
  constructor
  · intro hread
    obtain ⟨⟨key, after⟩, hreadKey, hread⟩ := exists_of_bind_eq_ok hread
    obtain ⟨⟨v, after⟩, hreadValue, hread⟩ := exists_of_bind_eq_ok hread
    cases hread
    obtain ⟨octets, rfl, hkey⟩ := (hkey _ _ _).mp hreadKey
    obtain ⟨more, rfl, hv⟩ := (h _ _ _).mp hreadValue
    exact ⟨octets ++ more, (List.append_assoc ..).symm, octets, more, rfl, hkey, hv⟩
  · rintro ⟨_, rfl, octets, more, rfl, hmember, hv⟩
    rw [List.append_assoc, MessagePack.readMember, (hkey _ _ _).mpr ⟨octets, rfl, hmember⟩]
    simp only [bind, Except.bind, (h _ _ rest).mpr ⟨more, rfl, hv⟩, pure, Except.pure]

theorem readMembers_eq (nesting : Nat) (reader : List UInt8 → Reading Json) (count : Nat)
    (payload : List UInt8) : readMembers nesting reader count payload =
      readItems (readMember (readLaterKey nesting) reader) count payload := by
  induction count generalizing payload with
  | zero => rfl
  | succ count ih =>
    rw [readMembers, readItems, readMember]
    simp only [ih, bind_assoc, pure_bind]

theorem readObject_succ (nesting : Nat) (reader : List UInt8 → Reading Json) (count : Nat)
    (payload : List UInt8) : readObject nesting reader (count + 1) payload =
      (readMember (readFirstKey nesting) reader payload).bind fun (member, rest) =>
        (readItems (readMember (readLaterKey nesting) reader) count rest).bind
          fun (members, rest) => .ok (Json.ofMembers (member :: members), rest) := by
  rw [readObject, readMember]
  simp only [bind, pure, readMembers_eq]
  cases readFirstKey nesting payload with
  | error fault => rfl
  | ok key =>
    dsimp only [Except.bind]
    cases reader key.2 <;> rfl

theorem finds_readObject {reader : List UInt8 → Reading Json} {spells : List UInt8 → Json → Prop}
    (h : Finds reader spells) (nesting count : Nat) :
    Finds (readObject nesting reader count) (IsObject spells count) := by
  have hfirst := (finds_readFirstKey nesting).readMember h
  have hmore (count : Nat) := ((finds_readLaterKey nesting).readMember h).readItems count
  intro payload object rest
  constructor
  · intro hread
    cases count with
    | zero =>
      cases hread
      exact ⟨[], rfl, .empty⟩
    | succ count =>
      rw [readObject_succ] at hread
      obtain ⟨⟨member, after⟩, hreadFirst, hread⟩ := exists_of_bind_eq_ok hread
      obtain ⟨⟨members, after⟩, hreadMore, hread⟩ := exists_of_bind_eq_ok hread
      cases hread
      obtain ⟨octets, rfl, hmember⟩ := (hfirst _ _ _).mp hreadFirst
      obtain ⟨more, rfl, hmembers, rfl⟩ := (hmore count _ _ _).mp hreadMore
      exact ⟨octets ++ more, (List.append_assoc ..).symm, .members hmember hmembers⟩
  · rintro ⟨_, rfl, hobject⟩
    cases hobject with
    | empty => rfl
    | @members octets more member members hmember hmembers =>
      rw [readObject_succ, List.append_assoc, (hfirst _ _ _).mpr ⟨octets, rfl, hmember⟩]
      simp only [Except.bind, (hmore _ _ _ rest).mpr ⟨more, rfl, hmembers, rfl⟩]

/-! ### Data values -/

/-- Octets spell a value without parts. -/
inductive IsScalar : List UInt8 → Json → Prop where
  /-- No value. -/
  | null {octets : List UInt8} (htoken : IsToken octets .nil) : IsScalar octets .null
  /-- A truth value. -/
  | bool {octets : List UInt8} {b : Bool} (htoken : IsToken octets (.bool b)) :
    IsScalar octets (.bool b)
  /-- An integer. -/
  | integer {octets : List UInt8} {n : WireInteger} (htoken : IsToken octets (.integer n)) :
    IsScalar octets (.integer n)
  /-- A number, which is lost if it is not finite. -/
  | real {octets : List UInt8} {x : Binary64} (htoken : IsToken octets (.real x)) :
    IsScalar octets (.ofReal x)
  /-- A text. -/
  | string {octets : List UInt8} {s : String}
    (htoken : IsToken octets (.text (Utf8.encode s.toList))) : IsScalar octets (.string s)

/-- Octets spell a sequence or a map, of which the parts are spelled as `spells` says. -/
inductive IsComposite (spells : List UInt8 → Json → Prop) : List UInt8 → Json → Prop where
  /-- A sequence. -/
  | array {head octets : List UInt8} {items : List Json}
    (htoken : IsToken head (.array items.length)) (hitems : Row spells octets items) :
    IsComposite spells (head ++ octets) (.array items)
  /-- A map. -/
  | object {head octets : List UInt8} {count : Nat} {members : List (String × Json)}
    (htoken : IsToken head (.map count)) (hmembers : IsObject spells count octets members) :
    IsComposite spells (head ++ octets) (.object members)

/-- Octets spell a data value with at most so many sequences and maps around any part of it. -/
def Spells : Nat → List UInt8 → Json → Prop
  | 0, octets, v => IsScalar octets v
  | nesting + 1, octets, v => IsScalar octets v ∨ IsComposite (Spells nesting) octets v

theorem spells_iff {v : Json} : Spells nesting octets v ↔
    IsScalar octets v ∨ ∃ k, nesting = k + 1 ∧ IsComposite (Spells k) octets v := by
  cases nesting with
  | zero => simp [Spells]
  | succ nesting => simp [Spells]

theorem exists_spells_of_readJsonWithin {v : Json}
    (ih : ∀ k < nesting, Finds (readJsonWithin k) (Spells k))
    (h : readJsonWithin nesting payload = .ok (v, rest)) :
    ∃ octets, payload = octets ++ rest ∧ Spells nesting octets v := by
  rw [readJsonWithin] at h
  rw [exists_congr fun octets => and_congr_right fun _ => spells_iff]
  obtain ⟨octets, token, after, rfl, htoken, h⟩ := exists_isToken_of_bind_eq_ok h
  cases token with
  | nil =>
    cases h
    exact ⟨octets, rfl, .inl (.null htoken)⟩
  | bool b =>
    cases h
    exact ⟨octets, rfl, .inl (.bool htoken)⟩
  | integer n =>
    cases h
    exact ⟨octets, rfl, .inl (.integer htoken)⟩
  | real x =>
    cases h
    exact ⟨octets, rfl, .inl (.real htoken)⟩
  | text body =>
    obtain ⟨text, htext, h⟩ := exists_of_bind_eq_ok h
    cases h
    rw [textOf_eq_ok_iff] at htext
    exact ⟨octets, rfl, .inl (.string (htext ▸ htoken))⟩
  -- The parts of a value may have one sequence or map less around them.
  | array length =>
    cases nesting with
    | zero => cases h
    | succ nesting =>
      obtain ⟨⟨items, after⟩, hread, h⟩ := exists_of_bind_eq_ok h
      cases h
      obtain ⟨body, rfl, hitems, rfl⟩ :=
        ((ih nesting nesting.lt_succ_self).readItems length _ _ _).mp hread
      exact ⟨octets ++ body, (List.append_assoc ..).symm,
        .inr ⟨nesting, rfl, .array htoken hitems⟩⟩
  | map length =>
    cases nesting with
    | zero => cases h
    | succ nesting =>
      obtain ⟨⟨members, after⟩, hread, h⟩ := exists_of_bind_eq_ok h
      cases h
      obtain ⟨body, rfl, hmembers⟩ :=
        (finds_readObject (ih nesting nesting.lt_succ_self) nesting length _ _ _).mp hread
      exact ⟨octets ++ body, (List.append_assoc ..).symm,
        .inr ⟨nesting, rfl, .object htoken hmembers⟩⟩
  | _ => exact absurd h stopAtToken_ne_ok

theorem IsScalar.readJsonWithin {v : Json} (h : IsScalar octets v) (nesting : Nat)
    (rest : List UInt8) :
    MessagePack.readJsonWithin nesting (octets ++ rest) = .ok (v, rest) := by
  cases h with
  | null htoken => exact readJsonWithin_null (htoken.readToken rest)
  | bool htoken => exact readJsonWithin_bool (htoken.readToken rest)
  | integer htoken => exact readJsonWithin_integer (htoken.readToken rest)
  | real htoken => exact readJsonWithin_real (htoken.readToken rest)
  | string htoken => exact readJsonWithin_text (htoken.readToken rest) (textOf_encode _)

theorem IsComposite.readJsonWithin {v : Json}
    (ih : Finds (MessagePack.readJsonWithin nesting) (Spells nesting))
    (h : IsComposite (Spells nesting) octets v) (rest : List UInt8) :
    MessagePack.readJsonWithin (nesting + 1) (octets ++ rest) = .ok (v, rest) := by
  rw [MessagePack.readJsonWithin]
  cases h with
  | @array head body items htoken hitems =>
    have hread := (ih.readItems _ _ _ rest).mpr ⟨body, rfl, hitems, rfl⟩
    rw [List.append_assoc, htoken.readToken]
    simp only [bind, Except.bind, hread, pure, Except.pure]
  | @object head body count members htoken hmembers =>
    have hread := (finds_readObject ih nesting _ _ _ rest).mpr ⟨body, rfl, hmembers⟩
    rw [List.append_assoc, htoken.readToken]
    simp only [bind, Except.bind, hread, pure, Except.pure]

/-- A data value is read where octets are that spell it. -/
theorem finds_readJsonWithin (nesting : Nat) :
    Finds (readJsonWithin nesting) (Spells nesting) := by
  -- On the depth: what is read within a value is read at a smaller one.
  induction nesting using Nat.strongRecOn with
  | ind nesting ih =>
    intro payload v rest
    constructor
    · exact exists_spells_of_readJsonWithin ih
    · rintro ⟨octets, rfl, hspells⟩
      obtain hscalar | ⟨nesting, rfl, hcomposite⟩ := spells_iff.mp hspells
      · exact hscalar.readJsonWithin nesting rest
      · exact hcomposite.readJsonWithin (ih nesting nesting.lt_succ_self) rest

end LiveTuner.MessagePack
