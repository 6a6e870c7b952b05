import LiveTuner.MessagePack.Reader
import LiveTuner.Proofs.MessagePack.Token

/-!
# Reading written data values

A data value that is written is read back as it was, with its keys in their order, and the reader
stops where the value ends. It is read item by item, each at the place where the one before it
ended, so what holds of the items holds of a sequence of them.

Three things are asked of the value: no object in it holds a key twice, its lengths fit the four
octets there are for them, and it does not nest deeper than the reader goes.

## Main definitions

* `Json.depth` — the number of sequences and objects around the innermost part of a value
* `MessagePack.fits` — the lengths within a value take at most four octets

## Main results

* `MessagePack.readItems_flatMap` — items are read back one by one
* `MessagePack.readJsonWithin_writeJson` — a data value is read back
-/

namespace LiveTuner

namespace Json

/-- Induction over a data value: sequences and objects may use what holds of the values in them. -/
@[elab_as_elim]
theorem induction {motive : Json → Prop} (null : motive null) (bool : ∀ b, motive (bool b))
    (integer : ∀ n, motive (integer n)) (real : ∀ x, motive (real x))
    (string : ∀ s, motive (string s))
    (array : ∀ items, (∀ v ∈ items, motive v) → motive (array items))
    (object : ∀ members, (∀ v ∈ members.map Prod.snd, motive v) → motive (object members))
    (v : Json) : motive v :=
  @Json.rec motive (fun items => ∀ v ∈ items, motive v)
    (fun members => ∀ v ∈ members.map Prod.snd, motive v) (fun member => motive member.2)
    null bool integer real string array object (fun _ h => absurd h List.not_mem_nil)
    (fun _ _ hv hrest => List.forall_mem_cons.mpr ⟨hv, hrest⟩)
    (fun _ h => absurd h List.not_mem_nil)
    (fun _ _ hmember hrest => List.forall_mem_cons.mpr ⟨hmember, hrest⟩) (fun _ _ h => h) v

mutual

/-- The greatest number of sequences and objects around a part of the value. -/
def depth : Json → Nat
  | array items => depthOfItems items + 1
  | object members => depthOfMembers members + 1
  | _ => 0

/-- The greatest depth of a value. -/
def depthOfItems : List Json → Nat
  | [] => 0
  | v :: rest => max (depth v) (depthOfItems rest)

/-- The greatest depth of a value under a key. -/
def depthOfMembers : List (String × Json) → Nat
  | [] => 0
  | (_, v) :: rest => max (depth v) (depthOfMembers rest)

end

variable {v : Json} {items : List Json} {members : List (String × Json)}

theorem depth_le_of_mem (h : v ∈ items) : v.depth ≤ depthOfItems items := by
  induction items with
  | nil => exact absurd h List.not_mem_nil
  | cons w rest ih =>
    rw [depthOfItems]
    rcases List.mem_cons.mp h with rfl | h
    · exact Nat.le_max_left _ _
    · exact Nat.le_trans (ih h) (Nat.le_max_right _ _)

theorem depthOfItems_le {k : Nat} (h : ∀ v ∈ items, v.depth ≤ k) : depthOfItems items ≤ k := by
  induction items with
  | nil => exact Nat.zero_le k
  | cons v rest ih =>
    obtain ⟨hv, hrest⟩ := List.forall_mem_cons.mp h
    exact Nat.max_le.mpr ⟨hv, ih hrest⟩

theorem depthOfMembers_eq (members : List (String × Json)) :
    depthOfMembers members = depthOfItems (members.map Prod.snd) := by
  induction members with
  | nil => rfl
  | cons member rest ih => rw [depthOfMembers, List.map_cons, depthOfItems, ih]

theorem wellFormedItems_iff : WellFormedItems items ↔ ∀ v ∈ items, v.WellFormed := by
  induction items with
  | nil => simp [WellFormedItems]
  | cons v rest ih => rw [WellFormedItems, ih, List.forall_mem_cons]

theorem wellFormedMembers_iff :
    WellFormedMembers members ↔ ∀ v ∈ members.map Prod.snd, v.WellFormed := by
  induction members with
  | nil => simp [WellFormedMembers]
  | cons member rest ih => rw [WellFormedMembers, ih, List.map_cons, List.forall_mem_cons]

/-! ### Setting keys in order -/

theorem put_of_notMem {key : String} {value : Json} (h : key ∉ members.map Prod.fst) :
    put key value members = members ++ [(key, value)] := by
  induction members with
  | nil => rfl
  | cons member rest ih =>
    rw [List.map_cons, List.mem_cons, not_or] at h
    rw [put, if_neg (Ne.symm h.1), ih h.2, List.cons_append]

/-- Keys that are new when they are set stand in the order in which they are set. -/
theorem foldl_put (front : List (String × Json)) (h : ((front ++ members).map Prod.fst).Nodup) :
    members.foldl (fun object (key, value) => put key value object) front = front ++ members := by
  induction members generalizing front with
  | nil => rw [List.foldl_nil, List.append_nil]
  | cons member rest ih =>
    obtain ⟨key, value⟩ := member
    have hnew : key ∉ front.map Prod.fst := by
      rw [List.map_append, List.map_cons] at h
      intro hmem
      exact (List.nodup_append.mp h).2.2 _ hmem _ List.mem_cons_self rfl
    -- The key is set at the end, so the rest is set behind one member more.
    rw [List.foldl_cons]
    dsimp only
    rw [put_of_notMem hnew, ih _ (by rwa [List.append_assoc]), List.append_assoc,
      List.singleton_append]

end Json

namespace MessagePack

/-- The octets of a text can be counted in four octets. -/
def textFits (s : String) : Bool := (Utf8.encode s.toList).length < 0x1_0000_0000

mutual

/-- The lengths of the texts, the sequences and the objects within a value fit four octets. -/
def fits : Json → Bool
  | .string s => textFits s
  | .array items => items.length < 0x1_0000_0000 && fitItems items
  | .object members => members.length < 0x1_0000_0000 && fitMembers members
  | _ => true

/-- So do those within each of some values. -/
def fitItems : List Json → Bool
  | [] => true
  | v :: rest => fits v && fitItems rest

/-- So do those of keys and within the values under them. -/
def fitMembers : List (String × Json) → Bool
  | [] => true
  | (key, v) :: rest => textFits key && fits v && fitMembers rest

end

variable {payload octets rest : List UInt8} {nesting : Nat} {v : Json} {items : List Json}
  {members : List (String × Json)} {s key : String} {α β : Type}

theorem fitItems_iff : fitItems items = true ↔ ∀ v ∈ items, fits v = true := by
  induction items with
  | nil => simp [fitItems]
  | cons v rest ih => rw [fitItems, Bool.and_eq_true, ih, List.forall_mem_cons]

theorem fitMembers_iff : fitMembers members = true ↔
    ∀ member ∈ members, textFits member.1 = true ∧ fits member.2 = true := by
  induction members with
  | nil => simp [fitMembers]
  | cons member rest ih =>
    rw [fitMembers, Bool.and_eq_true, Bool.and_eq_true, ih, List.forall_mem_cons]

/-! ### Items -/

theorem writeItems_eq (items : List Json) : writeItems items = items.flatMap writeJson := by
  induction items with
  | nil => rfl
  | cons v rest ih => rw [writeItems, ih, List.flatMap_cons]

/-- What is read back item by item is read back in a row. -/
theorem readItems_flatMap {l : List α} {write : α → List UInt8} {readItem : List UInt8 → Reading β}
    {f : α → β} (h : ∀ a ∈ l, ∀ rest, readItem (write a ++ rest) = .ok (f a, rest))
    (rest : List UInt8) :
    readItems readItem l.length (l.flatMap write ++ rest) = .ok (l.map f, rest) := by
  induction l with
  | nil => rfl
  | cons a l ih =>
    obtain ⟨ha, hl⟩ := List.forall_mem_cons.mp h
    rw [List.length_cons, readItems, List.flatMap_cons, List.append_assoc, ha]
    simp only [bind, Except.bind, ih hl, pure, Except.pure, List.map_cons]

/-! ### Texts and keys -/

theorem textOf_encode (s : String) : textOf (Utf8.encode s.toList) = .ok s := by
  rw [textOf, Utf8.decode_encode]
  simp

theorem readFirstKey_writeText (h : textFits key = true) :
    readFirstKey nesting (writeText key ++ rest) = .ok (key, rest) := by
  rw [readFirstKey, readToken_writeText (of_decide_eq_true h)]
  simp only [bind, Except.bind, textOf_encode, pure, Except.pure]

theorem readLaterKey_writeText (h : textFits key = true) :
    readLaterKey nesting (writeText key ++ rest) = .ok (key, rest) := by
  rw [readLaterKey, readToken_writeText (of_decide_eq_true h)]
  simp only [bind, Except.bind, textOf_encode, pure, Except.pure]

/-- Keys with their values are read back in a row. -/
theorem readMembers_writeMembers {readItem : List UInt8 → Reading Json}
    (hkeys : ∀ m ∈ members, textFits m.1 = true)
    (h : ∀ m ∈ members, ∀ rest, readItem (writeJson m.2 ++ rest) = .ok (m.2, rest))
    (rest : List UInt8) :
    readMembers nesting readItem members.length (writeMembers members ++ rest) =
      .ok (members, rest) := by
  induction members with
  | nil => rfl
  | cons member members ih =>
    obtain ⟨key, v⟩ := member
    obtain ⟨hkey, hkeys⟩ := List.forall_mem_cons.mp hkeys
    obtain ⟨hv, h⟩ := List.forall_mem_cons.mp h
    rw [List.length_cons, readMembers, writeMembers, List.append_assoc, List.append_assoc,
      readLaterKey_writeText hkey]
    simp only [bind, Except.bind, hv, ih hkeys h, pure, Except.pure]

/-- An object is read back, since no later key takes the place of an earlier one. -/
theorem readObject_writeMembers {readItem : List UInt8 → Reading Json}
    (hnodup : (members.map Prod.fst).Nodup) (hkeys : ∀ m ∈ members, textFits m.1 = true)
    (h : ∀ m ∈ members, ∀ rest, readItem (writeJson m.2 ++ rest) = .ok (m.2, rest))
    (rest : List UInt8) :
    readObject nesting readItem members.length (writeMembers members ++ rest) =
      .ok (members, rest) := by
  cases members with
  | nil => rfl
  | cons member members =>
    obtain ⟨key, v⟩ := member
    obtain ⟨hkey, hkeys⟩ := List.forall_mem_cons.mp hkeys
    obtain ⟨hv, h⟩ := List.forall_mem_cons.mp h
    have hput := Json.foldl_put [(key, v)] hnodup
    rw [List.length_cons, readObject, writeMembers, List.append_assoc, List.append_assoc,
      readFirstKey_writeText hkey]
    simp only [bind, Except.bind, hv, readMembers_writeMembers hkeys h, pure, Except.pure, hput,
      List.singleton_append]

/-! ### Data values -/

theorem readJsonWithin_null (h : readToken payload = .ok (.nil, rest)) :
    readJsonWithin nesting payload = .ok (.null, rest) := by
  rw [readJsonWithin, h]
  rfl

theorem readJsonWithin_bool {b : Bool} (h : readToken payload = .ok (.bool b, rest)) :
    readJsonWithin nesting payload = .ok (.bool b, rest) := by
  rw [readJsonWithin, h]
  rfl

theorem readJsonWithin_integer {n : WireInteger} (h : readToken payload = .ok (.integer n, rest)) :
    readJsonWithin nesting payload = .ok (.integer n, rest) := by
  rw [readJsonWithin, h]
  rfl

theorem readJsonWithin_real {x : Binary64} (h : readToken payload = .ok (.real x, rest)) :
    readJsonWithin nesting payload = .ok (.ofReal x, rest) := by
  rw [readJsonWithin, h]
  rfl

theorem readJsonWithin_text {s : String} (h : readToken payload = .ok (.text octets, rest))
    (hs : textOf octets = .ok s) : readJsonWithin nesting payload = .ok (.string s, rest) := by
  rw [readJsonWithin, h]
  simp [bind, Except.bind, hs, pure, Except.pure]

/-- A data value is read back, and so is where it ends. -/
theorem readJsonWithin_writeJson (v : Json) (hkeys : v.WellFormed) (hfits : fits v = true)
    (hdepth : v.depth ≤ nesting) (rest : List UInt8) :
    readJsonWithin nesting (writeJson v ++ rest) = .ok (v, rest) := by
  induction v using Json.induction generalizing nesting rest with
  | null => exact readJsonWithin_null rfl
  | bool b => exact readJsonWithin_bool (readToken_writeBool b rest)
  | integer n => exact readJsonWithin_integer (readToken_writeInteger n rest)
  | real x =>
    rw [writeJson, readJsonWithin_real (readToken_writeReal x.val rest), Json.ofReal,
      dif_pos x.property]
  | string s =>
    exact readJsonWithin_text (readToken_writeText (of_decide_eq_true hfits) rest)
      (textOf_encode s)
  | array items ih =>
    rw [Json.WellFormed, Json.wellFormedItems_iff] at hkeys
    rw [fits, Bool.and_eq_true, decide_eq_true_eq, fitItems_iff] at hfits
    rw [Json.depth] at hdepth
    -- The sequence takes one level of nesting, and its items have what is left of it.
    obtain ⟨nesting, rfl⟩ := Nat.exists_eq_add_of_le' (Nat.le_trans (Nat.succ_pos _) hdepth)
    have hitems : ∀ v ∈ items, ∀ rest,
        readJsonWithin nesting (writeJson v ++ rest) = .ok (id v, rest) := by
      intro v hv rest
      have hv' := Json.depth_le_of_mem hv
      exact ih v hv (hkeys v hv) (hfits.2 v hv) (by omega) rest
    rw [writeJson, List.append_assoc, readJsonWithin, readToken_writeArrayHead hfits.1,
      writeItems_eq]
    simp only [bind, Except.bind, readItems_flatMap hitems, pure, Except.pure, List.map_id_fun,
      id_eq]
  | object members ih =>
    rw [Json.WellFormed, Json.wellFormedMembers_iff] at hkeys
    rw [fits, Bool.and_eq_true, decide_eq_true_eq, fitMembers_iff] at hfits
    rw [Json.depth, Json.depthOfMembers_eq] at hdepth
    obtain ⟨nesting, rfl⟩ := Nat.exists_eq_add_of_le' (Nat.le_trans (Nat.succ_pos _) hdepth)
    have hmembers : ∀ m ∈ members, ∀ rest,
        readJsonWithin nesting (writeJson m.2 ++ rest) = .ok (m.2, rest) := by
      intro m hm rest
      have hv := List.mem_map_of_mem (f := Prod.snd) hm
      have hv' := Json.depth_le_of_mem hv
      exact ih m.2 hv (hkeys.2 m.2 hv) (hfits.2 m hm).2 (by omega) rest
    rw [writeJson, List.append_assoc, readJsonWithin, readToken_writeMapHead hfits.1]
    simp only [bind, Except.bind, pure, Except.pure,
      readObject_writeMembers hkeys.1 (fun m hm => (hfits.2 m hm).1) hmembers]

end MessagePack

end LiveTuner
