import LiveTuner.Proofs.Message.Definitions
import Mathlib.Data.List.Basic

/-!
# Updates in a frame

An update can be read in three ways: as a pair of an id and a value, as a data value that turns out
to be such a pair, and, the parameter value alone, as the data value that it is. All three give back
what was sent. Integers and other numbers are written differently, so neither is read as the other;
only a sequence without items does not tell which of the two its items would be, and is taken for
one of integers.

Data values know only finite numbers, so the numbers are taken to be finite.

## Main definitions

* `Value.isFinite` — the numbers of a value are finite
* `MessagePack.Packed.ofValue` — a parameter value among the sound values

## Main results

* `Value.ofJson?_toJson` — a value is read back from data
* `MessagePack.readUpdate_writeUpdate` — an update is read back as one
* `MessagePack.reads_writeUpdate` — all readers agree on an update
-/

namespace LiveTuner

/-! ### Values as data -/

namespace Value

variable {v : Value} {xs : List Binary64}

/-- The numbers of the value are finite. -/
def isFinite : Value → Bool
  | real x => x.isFinite
  | reals xs => xs.all Binary64.isFinite
  | _ => true

theorem mapM_toInt64?_ofInt64 (ns : List Int64) :
    (ns.map Json.ofInt64).mapM Json.toInt64? = some ns :=
  mapM_map_eq_pure fun n _ => WireInteger.toInt64?_ofInt64 n

/-- The first number tells that the items are no integers. -/
theorem mapM_toInt64?_ofReal (h : xs ≠ []) : (xs.map Json.ofReal).mapM Json.toInt64? = none := by
  match xs with
  | [] => exact absurd rfl h
  | x :: xs =>
    have hx : (Json.ofReal x).toInt64? = none := by
      rw [Json.ofReal]
      split <;> rfl
    rw [List.map_cons, List.mapM_cons, hx]
    rfl

/-- A value is read back from data, in its type. -/
theorem ofJson?_toJson (hfinite : v.isFinite = true) (hne : v ≠ reals []) :
    ofJson? v.toJson = some v := by
  cases v with
  | null | bool | text => rfl
  | int n =>
    rw [toJson, Json.ofInt64, ofJson?, WireInteger.toInt64?_ofInt64]
  | real x =>
    have hx : x.isFinite = true := hfinite
    rw [toJson, Json.ofReal, dif_pos hx]
    rfl
  | ints ns => rw [toJson, ofJson?, mapM_toInt64?_ofInt64]
  | reals xs =>
    have hxs : xs ≠ [] := fun h => hne (congrArg reals h)
    rw [isFinite, List.all_eq_true] at hfinite
    rw [toJson, ofJson?, mapM_toInt64?_ofReal hxs, Definition.mapM_toReal?_ofReal hfinite]
    rfl

theorem wellFormed_toJson (v : Value) : v.toJson.WellFormed := by
  cases v with
  | null | bool | int | text => trivial
  | real x => exact Definition.wellFormed_ofReal x
  | ints ns =>
    rw [toJson, Json.WellFormed, Json.wellFormedItems_iff]
    intro v hv
    obtain ⟨n, -, rfl⟩ := List.mem_map.mp hv
    trivial
  | reals xs => exact Definition.wellFormed_boundJson (.perIndex xs)

/-- Nothing in a value lies within more than one sequence. -/
theorem depth_toJson_le (v : Value) : v.toJson.depth ≤ 1 := by
  have hreal : ∀ x : Binary64, (Json.ofReal x).depth ≤ 0 := by
    intro x
    rw [Json.ofReal]
    split <;> exact Nat.le_refl 0
  cases v with
  | null | bool | int | text => exact Nat.zero_le 1
  | real x => exact Nat.le_succ_of_le (hreal x)
  | ints ns =>
    have hitems : ∀ v ∈ ns.map Json.ofInt64, v.depth ≤ 0 := by
      intro v hv
      obtain ⟨n, -, rfl⟩ := List.mem_map.mp hv
      exact Nat.le_refl 0
    exact Nat.succ_le_succ (Json.depthOfItems_le hitems)
  | reals xs =>
    have hitems : ∀ v ∈ xs.map Json.ofReal, v.depth ≤ 0 := by
      intro v hv
      obtain ⟨x, -, rfl⟩ := List.mem_map.mp hv
      exact hreal x
    exact Nat.succ_le_succ (Json.depthOfItems_le hitems)

end Value

namespace MessagePack

variable {v : Value} {rest : List UInt8} {nesting : Nat}

/-! ### Values as sound values -/

/-- A parameter value among the sound values. -/
def Packed.ofValue : Value → Packed
  | .null => nil
  | .bool b => bool b
  | .int n => integer (.ofInt64 n)
  | .real x => real x
  | .ints ns => array (ns.map fun n => integer (.ofInt64 n))
  | .reals xs => array (xs.map real)
  | .text s => octets (Utf8.encode s.toList)

namespace Packed

/-- A sound value stands for the parameter value that it is. -/
theorem toValue?_ofValue (hne : v ≠ .reals []) : (ofValue v).toValue? = some v := by
  match v with
  | .null | .bool _ | .real _ => rfl
  | .int n => rw [ofValue, toValue?, WireInteger.toInt64?_ofInt64]
  | .ints ns =>
    have hints : (ns.map fun n => integer (.ofInt64 n)).mapM toInt64? = some ns :=
      mapM_map_eq_pure fun n _ => WireInteger.toInt64?_ofInt64 n
    rw [ofValue, toValue?, hints]
  | .reals [] => exact absurd rfl hne
  | .reals (x :: xs) =>
    have hints : ((x :: xs).map real).mapM toInt64? = none := by
      rw [List.map_cons, List.mapM_cons]
      rfl
    have hreals : ((x :: xs).map real).mapM toReal? = some (x :: xs) :=
      mapM_map_eq_pure fun _ _ => rfl
    rw [ofValue, toValue?, hints, hreals]
    rfl
  | .text s =>
    rw [ofValue, toValue?, Utf8.decode_encode]
    simp

end Packed

theorem readPacked_integer (n : Int64) (rest : List UInt8) :
    readPacked nesting (writeInteger n.toInt ++ rest) = .ok (.integer (.ofInt64 n), rest) := by
  have htoken : readToken (writeInteger n.toInt ++ rest) = .ok (.integer (.ofInt64 n), rest) :=
    readToken_writeInteger (.ofInt64 n) rest
  rw [readPacked, htoken]
  rfl

theorem readPacked_real (x : Binary64) (rest : List UInt8) :
    readPacked nesting (writeReal x ++ rest) = .ok (.real x, rest) := by
  rw [readPacked, readToken_writeReal]
  rfl

/-- A sequence is read back if each of its items is. -/
theorem readPacked_array {α : Type} {l : List α} {write : α → List UInt8} {f : α → Packed}
    (hlength : l.length < 0x1_0000_0000)
    (h : ∀ a ∈ l, ∀ rest, readPacked nesting (write a ++ rest) = .ok (f a, rest))
    (rest : List UInt8) :
    readPacked (nesting + 1) (writeArrayHead l.length ++ l.flatMap write ++ rest) =
      .ok (.array (l.map f), rest) := by
  rw [readPacked, List.append_assoc, readToken_writeArrayHead hlength]
  simp only [bind, Except.bind, readItems_flatMap h, pure, Except.pure]

/-- The lengths in a sequence fit only if its own does. -/
theorem length_lt_of_fits {items : List Json} (h : fits (.array items) = true) :
    items.length < 0x1_0000_0000 := by
  rw [fits, Bool.and_eq_true, decide_eq_true_eq] at h
  exact h.1

/-- A parameter value is read back among the sound values. -/
theorem readPacked_writeValue (hfits : fits v.toJson = true) (rest : List UInt8) :
    readPacked (nesting + 1) (writeValue v ++ rest) = .ok (.ofValue v, rest) := by
  cases v with
  | null =>
    rw [readPacked]
    rfl
  | bool b =>
    rw [writeValue, readPacked, readToken_writeBool]
    rfl
  | int n => exact readPacked_integer n rest
  | real x => exact readPacked_real x rest
  | ints ns =>
    have hlength := length_lt_of_fits hfits
    rw [List.length_map] at hlength
    exact readPacked_array hlength (fun n _ rest => readPacked_integer n rest) rest
  | reals xs =>
    have hlength := length_lt_of_fits hfits
    rw [List.length_map] at hlength
    exact readPacked_array hlength (fun x _ rest => readPacked_real x rest) rest
  | text s =>
    rw [writeValue, readPacked, readToken_writeText (of_decide_eq_true hfits)]
    rfl

/-! ### Updates -/

/-- A small integer is its own marker, and no marker of a text or a sequence. -/
theorem isScalarMarker_ofNat {m : Nat} (hm : m < 0x100) (h : m < 0x80 ∨ 0xe0 ≤ m) :
    isScalarMarker (UInt8.ofNat m) = true := by
  rw [isScalarMarker]
  simp only [Utf8.toNat_ofNat_of_lt hm]
  rcases h with h | h <;> simp [h]

/-- An integer begins with the marker of a scalar. -/
theorem exists_writeInteger_eq (w : WireInteger) :
    ∃ marker rest, writeInteger w.val = marker :: rest ∧ isScalarMarker marker = true := by
  rw [writeInteger]
  dsimp only
  split_ifs
  · exact ⟨_, _, rfl, isScalarMarker_ofNat (by omega) (by omega)⟩
  · exact ⟨_, _, rfl, by decide⟩
  · exact ⟨_, _, rfl, by decide⟩
  · exact ⟨_, _, rfl, by decide⟩
  · exact ⟨_, _, rfl, by decide⟩
  · refine ⟨_, _, rfl, isScalarMarker_ofNat ?_ ?_⟩
    all_goals rw [Nat.shiftRight_zero]; omega
  · exact ⟨_, _, rfl, by decide⟩
  · exact ⟨_, _, rfl, by decide⟩
  · exact ⟨_, _, rfl, by decide⟩
  · exact ⟨_, _, rfl, by decide⟩

theorem readId_writeInteger (n : Int64) (rest : List UInt8) :
    readId (writeInteger n.toInt ++ rest) = .ok (⟨n⟩, rest) := by
  have htoken : readToken (writeInteger n.toInt ++ rest) = .ok (.integer (.ofInt64 n), rest) :=
    readToken_writeInteger (.ofInt64 n) rest
  obtain ⟨marker, octets, heq, hmarker⟩ :
      ∃ marker octets, writeInteger n.toInt = marker :: octets ∧ isScalarMarker marker = true :=
    exists_writeInteger_eq (.ofInt64 n)
  rw [heq, List.cons_append] at htoken ⊢
  rw [readToken] at htoken
  simp [readId, hmarker, htoken, bind, Except.bind, WireInteger.toInt64?_ofInt64, pure,
    Except.pure]

/-- An update is read back as one. -/
theorem readUpdate_writeUpdate (id : ParamId) (hne : v ≠ .reals []) (hfits : fits v.toJson = true) :
    readUpdate (writeUpdate id v) = .ok (id, v) := by
  have hvalue : readPacked (maxNesting - 1) (writeValue v) = .ok (.ofValue v, []) := by
    have h : readPacked (maxNesting - 1) (writeValue v ++ []) = .ok (.ofValue v, []) :=
      readPacked_writeValue hfits []
    rwa [List.append_nil] at h
  rw [readUpdate, writeUpdate, List.append_assoc, readToken_writeArrayHead (by decide)]
  simp [bind, Except.bind, readId_writeInteger, hvalue, Packed.toValue?_ofValue hne, pure,
    Except.pure]

/-- A value is written as the data value that it is. -/
theorem writeValue_eq (hfinite : v.isFinite = true) : writeValue v = writeJson v.toJson := by
  have hreal : ∀ x : Binary64, x.isFinite = true → writeJson (.ofReal x) = writeReal x := by
    intro x hx
    rw [Json.ofReal, dif_pos hx, writeJson]
  cases v with
  | null | bool | int | text => rfl
  | real x => exact (hreal x hfinite).symm
  | ints ns =>
    rw [writeValue, Value.toJson, writeJson, writeItems_eq, List.length_map, List.flatMap_map]
    rfl
  | reals xs =>
    rw [Value.isFinite, List.all_eq_true] at hfinite
    rw [writeValue, Value.toJson, writeJson, writeItems_eq, List.length_map, List.flatMap_map]
    congr 1
    exact List.flatMap_congr fun x hx => (hreal x (hfinite x hx)).symm

/-- An update is written as the data value that it is. -/
theorem writeUpdate_eq (id : ParamId) (hfinite : v.isFinite = true) :
    writeUpdate id v = writeJson (.array [.ofInt64 id.number, v.toJson]) := by
  rw [writeUpdate, writeValue_eq hfinite, List.append_assoc]
  simp [writeJson, writeItems, Json.ofInt64, WireInteger.ofInt64]

/-- A frame with an update in it is a value push. -/
theorem classify_writeUpdate (id : ParamId) (hfinite : v.isFinite = true) (hne : v ≠ .reals [])
    (hfits : fits v.toJson = true) :
    Inbound.classify (writeUpdate id v) = .ok (.push id v) := by
  have hkeys : ∀ item ∈ [Json.ofInt64 id.number, v.toJson], item.WellFormed :=
    List.forall_mem_cons.mpr ⟨trivial, List.forall_mem_singleton.mpr v.wellFormed_toJson⟩
  have hlengths : fits (.array [Json.ofInt64 id.number, v.toJson]) = true := by
    simp [fits, fitItems, hfits, Json.ofInt64]
  have hdepth : (Json.array [Json.ofInt64 id.number, v.toJson]).depth ≤ maxNesting := by
    have hitems : ∀ item ∈ [Json.ofInt64 id.number, v.toJson], item.depth ≤ 1 :=
      List.forall_mem_cons.mpr
        ⟨Nat.zero_le 1, List.forall_mem_singleton.mpr v.depth_toJson_le⟩
    exact Nat.le_trans (Nat.succ_le_succ (Json.depthOfItems_le hitems)) (by decide)
  have hpush : Inbound.push? [Json.ofInt64 id.number, v.toJson] = some (id, v) := by
    rw [Inbound.push?, Value.ofJson?_toJson hfinite hne, Json.ofInt64, Json.toInt64?,
      WireInteger.toInt64?_ofInt64]
    rfl
  rw [writeUpdate_eq id hfinite, Inbound.classify_array hkeys hlengths hdepth, Inbound.ofData,
    hpush]

/-- All readers agree on an update: what reads an update finds the id and the value, a frame with it
is a push of the value to the id, and the value as data stands for the value. The numbers of the
value are finite, it has no more octets or items than can be counted, and it is not the sequence of
numbers without any. -/
theorem reads_writeUpdate (id : ParamId) (hfinite : v.isFinite = true) (hne : v ≠ .reals [])
    (hfits : fits v.toJson = true) :
    readUpdate (writeUpdate id v) = .ok (id, v) ∧
      Inbound.classify (writeUpdate id v) = .ok (.push id v) ∧
      Value.ofJson? v.toJson = some v :=
  ⟨readUpdate_writeUpdate id hne hfits, classify_writeUpdate id hfinite hne hfits,
    Value.ofJson?_toJson hfinite hne⟩

theorem reads_writeUpdate_reals :
    let v : Value := .reals [.ofInt 1, .ofInt (-2)]
    v.isFinite = true ∧ v ≠ .reals [] ∧ fits v.toJson = true ∧
      readUpdate (writeUpdate ⟨-129⟩ v) = .ok (⟨-129⟩, v) ∧
      Inbound.classify (writeUpdate ⟨-129⟩ v) = .ok (.push ⟨-129⟩ v) ∧
      Value.ofJson? v.toJson = some v := by
  intro v
  have hfinite : v.isFinite = true := by decide +kernel
  have hne : v ≠ .reals [] := by decide
  have hfits : fits v.toJson = true := by decide +kernel
  exact ⟨hfinite, hne, hfits, reads_writeUpdate ⟨-129⟩ hfinite hne hfits⟩

end MessagePack

end LiveTuner
