import LiveTuner.Message.Inbound
import LiveTuner.Proofs.Param.Definition
import Mathlib.Tactic.SplitIfs

/-!
# Definitions in a frame

A list in a frame begins with an octet past ASCII. Such octets spell no text, or a text that begins
with a character past ASCII, and no JSON value does; so no list is taken for a control record. And a
definition as data is an object, which is no id; so no two definitions are taken for a value push.
What remains is a list of definitions, and each of them is read back.

## Main definitions

* `Inbound.Carries` — a frame carries a data value

## Main results

* `Inbound.classify_array` — a frame with a list in it means what the list means
* `Inbound.classify_writeDefinitions` — definitions that are sent are received
-/

namespace LiveTuner

/-! ### Octets past ASCII -/

/-- No JSON value begins with a character past ASCII. -/
theorem Json.ofText?_of_le {c : Char} (h : 0x80 ≤ c.toNat) (rest : List Char) :
    Json.ofText? (c :: rest) = none := by
  have hne : ∀ d : Char, d.toNat < 0x80 → c ≠ d := by
    intro d hd heq
    subst heq
    omega
  have hgap : isGap c = false := by
    simp [isGap, hne ' ' (by decide), hne '\n' (by decide), hne '\t' (by decide),
      hne '\r' (by decide)]
  have hdigit : digitValue? c = none := by
    rw [digitValue?, if_neg]
    intro hc
    have hle : c.toNat ≤ 0x39 := UInt32.le_iff_toNat_le.mp hc.2
    omega
  have hskip : skipGaps (c :: rest) = c :: rest := by
    rw [skipGaps, List.dropWhile_cons, hgap]
    rfl
  have hvalue : readValue maxNesting (c :: rest) = stopAt .noValue (c :: rest) := by
    rw [readValue.eq_def, hskip]
    simp [hne 'n' (by decide), hne 't' (by decide), hne 'f' (by decide), hne '-' (by decide),
      hne '"' (by decide), hne '[' (by decide), hne '\x7b' (by decide), hdigit]
  rw [ofText?, read, hvalue]
  rfl

namespace MessagePack

theorem exists_writeArrayHead_eq (length : Nat) :
    ∃ a rest, writeArrayHead length = a :: rest ∧ 0x80 ≤ a.toNat := by
  rw [writeArrayHead]
  split_ifs with h
  · refine ⟨_, _, rfl, ?_⟩
    rw [Utf8.toNat_ofNat_of_lt (by omega)]
    omega
  · exact ⟨_, _, rfl, by decide⟩
  · exact ⟨_, _, rfl, by decide⟩

end MessagePack

namespace Inbound

variable {ds : List Definition} {octets : List UInt8}

/-- Octets that begin with a list are no control record. -/
theorem record?_writeArrayHead (length : Nat) (octets : List UInt8) :
    record? (MessagePack.writeArrayHead length ++ octets) = none := by
  obtain ⟨a, rest, hhead, ha⟩ := MessagePack.exists_writeArrayHead_eq length
  rw [hhead, List.cons_append, record?]
  cases htext : Utf8.decode (a :: (rest ++ octets)) with
  | error _ => rfl
  | ok text =>
    obtain ⟨c, text', rfl, hc⟩ := Utf8.le_toNat_of_decode ha htext
    simp only [Json.ofText?_of_le hc]

/-- A frame is no control record, and carries a data value. -/
def Carries (payload : List UInt8) (v : Json) : Prop :=
  record? payload = none ∧ MessagePack.readJson payload = .ok v

theorem Carries.classify_eq {v : Json} (h : Carries octets v) :
    classify octets = .ok (ofData v) := by
  rw [classify, h.1, h.2]
  rfl

/-- A list that is written is carried. -/
theorem carries_array {items : List Json} (hkeys : ∀ v ∈ items, v.WellFormed)
    (hfits : MessagePack.fits (.array items) = true)
    (hdepth : (Json.array items).depth ≤ MessagePack.maxNesting) :
    Carries (MessagePack.writeJson (.array items)) (.array items) := by
  have hread := MessagePack.readJsonWithin_writeJson (.array items)
    (by rwa [Json.WellFormed, Json.wellFormedItems_iff]) hfits hdepth []
  rw [List.append_nil] at hread
  refine ⟨?_, ?_⟩
  · rw [MessagePack.writeJson]
    exact record?_writeArrayHead _ _
  · rw [MessagePack.readJson, hread]
    rfl

/-- A frame with a list in it means what the list means. -/
theorem classify_array {items : List Json} (hkeys : ∀ v ∈ items, v.WellFormed)
    (hfits : MessagePack.fits (.array items) = true)
    (hdepth : (Json.array items).depth ≤ MessagePack.maxNesting) :
    classify (MessagePack.writeJson (.array items)) = .ok (ofData (.array items)) :=
  (carries_array hkeys hfits hdepth).classify_eq

/-! ### Definitions -/

/-- Every definition of a list is accepted, in its place. -/
theorem sortDefinitions_map_toJson (h : ∀ d ∈ ds, d.isFinite = true) :
    sortDefinitions (ds.map Definition.toJson) = (ds, []) := by
  induction ds with
  | nil => rfl
  | cons d ds ih =>
    obtain ⟨hd, hds⟩ := List.forall_mem_cons.mp h
    rw [List.map_cons, sortDefinitions, ih hds, Definition.ofJson_toJson d hd]

/-- Two definitions are no value push, as the first of them is no id. -/
theorem push?_map_toJson (ds : List Definition) : push? (ds.map Definition.toJson) = none := by
  match ds with
  | [] | [_] | _ :: _ :: _ :: _ => rfl
  | [d, d'] =>
    rw [List.map_cons, Definition.toJson_eq]
    rfl

/-- Definitions that are sent are received: all of them, in their order, with the attributes of
every group in theirs, and none is rejected. Their bounds and steps are finite, they hold no key
twice, and lengths and depth are such as a payload can have. -/
theorem classify_writeDefinitions (hfinite : ∀ d ∈ ds, d.isFinite = true)
    (hkeys : ∀ d ∈ ds, d.WellFormed)
    (hfits : MessagePack.fits (.array (ds.map Definition.toJson)) = true)
    (hdepth : (Json.array (ds.map Definition.toJson)).depth ≤ MessagePack.maxNesting) :
    classify (MessagePack.writeDefinitions ds) = .ok (.definitions ds []) := by
  have hwell : ∀ v ∈ ds.map Definition.toJson, v.WellFormed := by
    intro v hv
    obtain ⟨d, hd, rfl⟩ := List.mem_map.mp hv
    exact d.wellFormed_toJson (hkeys d hd)
  rw [MessagePack.writeDefinitions, classify_array hwell hfits hdepth, ofData, push?_map_toJson,
    sortDefinitions_map_toJson hfinite]

/-- A group of two sequences with bounds, one of which is not shown, and a text to choose. -/
def sampleList : List Definition :=
  let low : Definition :=
    { Definition.bare ⟨3⟩ "low" (.array [.ofInt64 1, .ofReal (.ofInt 2)]) with
      min := some (.perIndex [.ofInt 0, .ofInt (-1)]), max := some (.uniform (.ofInt 9)) }
  let high : Definition :=
    { Definition.bare ⟨-2⟩ "high" (.array []) with
      logScale := some true, step := some (.ofInt 1) }
  [{ Definition.bare ⟨128⟩ "range" .null with
      params := some [("z", high), ("a", low)], hidden := some ["z"] },
    { Definition.bare ⟨7⟩ "mode" (.string "slow") with
      oneof := some [.string "slow", .string "fast", .null] }]

theorem classify_sampleList :
    (∀ d ∈ sampleList, d.isFinite = true) ∧ (∀ d ∈ sampleList, d.WellFormed) ∧
      MessagePack.fits (.array (sampleList.map Definition.toJson)) = true ∧
      (Json.array (sampleList.map Definition.toJson)).depth ≤ MessagePack.maxNesting ∧
      classify (MessagePack.writeDefinitions sampleList) = .ok (.definitions sampleList []) := by
  have hfinite : ∀ d ∈ sampleList, d.isFinite = true := by decide +kernel
  have hkeys : ∀ d ∈ sampleList, d.WellFormed := by
    refine List.forall_mem_cons.mpr ⟨Definition.wellFormed_iff.mpr ⟨trivial, nofun, ?_⟩,
      List.forall_mem_singleton.mpr (Definition.wellFormed_iff.mpr ?_)⟩
    · intro members hm
      cases hm
      refine ⟨by decide, List.forall_mem_cons.mpr
        ⟨Definition.wellFormed_iff.mpr ?_, List.forall_mem_singleton.mpr
          (Definition.wellFormed_iff.mpr ?_)⟩⟩
      all_goals simp [Definition.bare, Json.WellFormed, Json.WellFormedItems, Json.ofInt64,
        Definition.wellFormed_ofReal]
    · simp [Definition.bare, Json.WellFormed]
  have hfits : MessagePack.fits (.array (sampleList.map Definition.toJson)) = true := by
    decide +kernel
  have hdepth : (Json.array (sampleList.map Definition.toJson)).depth ≤ MessagePack.maxNesting := by
    decide +kernel
  exact ⟨hfinite, hkeys, hfits, hdepth, classify_writeDefinitions hfinite hkeys hfits hdepth⟩

end Inbound

end LiveTuner
