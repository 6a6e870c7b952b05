import LiveTuner.Proofs.Json.Spacing
import LiveTuner.Proofs.Message.Definitions
import LiveTuner.Proofs.MessagePack.Grammar
import LiveTuner.Session

/-!
# Which frames are accepted

A frame is accepted if it is the text of one JSON object, all of it, or if it begins with a data
value. The two readers differ in what they ask of the end: behind the object only white space may
stand, while octets behind the value are passed over. So every whole frame is accepted, but so is
one that runs on behind a value; these two kinds have nothing in common, and no others are accepted.

Each octet below `0x80` is a value of its own. So a frame that begins with a character of ASCII is
always accepted, whatever comes after it, even if it was meant for a record and has been cut short.

## Main definitions

* `Inbound.IsRecord`, `Inbound.IsData` — the octets of a record, and those of a data value
* `Inbound.IsWhole` — nothing of a frame is left over
* `Inbound.RunsOn` — something stands behind a data value

## Main results

* `Inbound.exists_classify_iff` — the frames that are accepted
* `Inbound.not_isWhole_of_runsOn` — no frame is whole and runs on
* `Inbound.exists_classify_of_ascii` — what begins with ASCII is accepted
* `Inbound.accepts_whole_or_running` — the verdict on every frame
-/

namespace LiveTuner

namespace Inbound

variable {payload octets rest : List UInt8} {members : List (String × Json)}

/-- The octets are the text of one JSON object. -/
def IsRecord (octets : List UInt8) (members : List (String × Json)) : Prop :=
  ∃ text, octets = Utf8.encode text ∧ Json.read text = .ok (.object members)

/-- The octets spell one data value. -/
def IsData (octets : List UInt8) (v : Json) : Prop :=
  MessagePack.Spells MessagePack.maxNesting octets v

/-- The whole payload is one record or spells one data value. -/
def IsWhole (payload : List UInt8) : Prop :=
  (∃ members, IsRecord payload members) ∨ ∃ v, IsData payload v

/-- The payload is no record, and something stands behind the data value that it begins with. -/
def RunsOn (payload : List UInt8) : Prop :=
  (∀ members, ¬ IsRecord payload members) ∧
    ∃ octets rest v, payload = octets ++ rest ∧ rest ≠ [] ∧ IsData octets v

theorem ofText?_eq_some_iff {text : List Char} {v : Json} :
    Json.ofText? text = some v ↔ Json.read text = .ok v := by
  rw [Json.ofText?]
  cases Json.read text <;> simp [Except.toOption]

theorem record?_eq_some_iff : record? payload = some members ↔ IsRecord payload members := by
  constructor
  · intro h
    rw [record?] at h
    split at h
    · cases h
    · next text htext =>
      split at h
      · next hread =>
        cases h
        exact ⟨text, Utf8.decode_eq_ok_iff.mp htext, ofText?_eq_some_iff.mp hread⟩
      · cases h
  · rintro ⟨text, rfl, hread⟩
    simp only [record?, Utf8.decode_encode, ofText?_eq_some_iff.mpr hread]

theorem record?_eq_none_iff : record? payload = none ↔ ∀ members, ¬ IsRecord payload members := by
  simp only [Option.eq_none_iff_forall_ne_some, ne_eq, record?_eq_some_iff]

theorem readJson_eq_ok_iff {v : Json} : MessagePack.readJson payload = .ok v ↔
    ∃ octets rest, payload = octets ++ rest ∧ IsData octets v := by
  rw [MessagePack.readJson]
  constructor
  · intro h
    obtain ⟨⟨v, rest⟩, hread, rfl⟩ := exists_of_map_eq_ok h
    obtain ⟨octets, hpayload, hv⟩ := (MessagePack.finds_readJsonWithin _ _ _ _).mp hread
    exact ⟨octets, rest, hpayload, hv⟩
  · rintro ⟨octets, rest, hpayload, hv⟩
    rw [(MessagePack.finds_readJsonWithin _ _ _ rest).mpr ⟨octets, hpayload, hv⟩]
    rfl

/-- A frame means what its record says, or else the data value that it begins with. -/
theorem classify_eq_ok_iff {message : Inbound} : classify payload = .ok message ↔
    (∃ members, IsRecord payload members ∧ ofRecord members = message) ∨
      (∀ members, ¬ IsRecord payload members) ∧
        ∃ octets rest v, payload = octets ++ rest ∧ IsData octets v ∧ ofData v = message := by
  rw [classify]
  cases hrecord : record? payload with
  | some members =>
    have hmembers := record?_eq_some_iff.mp hrecord
    constructor
    · intro h
      exact .inl ⟨members, hmembers, Except.ok.inj h⟩
    · rintro (⟨members', hmembers', rfl⟩ | ⟨hnone, -⟩)
      · rw [← record?_eq_some_iff, hrecord, Option.some.injEq] at hmembers'
        rw [hmembers']
      · exact absurd hmembers (hnone members)
  | none =>
    have hnone := record?_eq_none_iff.mp hrecord
    constructor
    · intro h
      obtain ⟨v, hread, h⟩ := exists_of_map_eq_ok h
      obtain ⟨octets, rest, hpayload, hv⟩ := readJson_eq_ok_iff.mp hread
      exact .inr ⟨hnone, octets, rest, v, hpayload, hv, h⟩
    · rintro (⟨members, hmembers, -⟩ | ⟨-, octets, rest, v, hpayload, hv, rfl⟩)
      · exact absurd hmembers (hnone members)
      · rw [readJson_eq_ok_iff.mpr ⟨octets, rest, hpayload, hv⟩]
        rfl

/-- A frame is accepted exactly if nothing of it is left over or if it runs on. -/
theorem exists_classify_iff :
    (∃ message, classify payload = .ok message) ↔ IsWhole payload ∨ RunsOn payload := by
  simp only [classify_eq_ok_iff]
  constructor
  · rintro ⟨message, ⟨members, hmembers, -⟩ | ⟨hnone, octets, rest, v, rfl, hv, -⟩⟩
    · exact .inl (.inl ⟨members, hmembers⟩)
    · -- A value is the whole frame if nothing stands behind it.
      by_cases hrest : rest = []
      · rw [hrest, List.append_nil]
        exact .inl (.inr ⟨v, hv⟩)
      · exact .inr ⟨hnone, octets, rest, v, rfl, hrest, hv⟩
  · rintro ((⟨members, hmembers⟩ | ⟨v, hv⟩) | ⟨hnone, octets, rest, v, rfl, -, hv⟩)
    · exact ⟨_, .inl ⟨members, hmembers, rfl⟩⟩
    · -- It does not matter here whether the octets of a value are those of a record, too.
      by_cases hrecord : ∃ members, IsRecord payload members
      · obtain ⟨members, hmembers⟩ := hrecord
        exact ⟨_, .inl ⟨members, hmembers, rfl⟩⟩
      · exact ⟨_, .inr ⟨not_exists.mp hrecord, payload, [], v, (List.append_nil _).symm, hv, rfl⟩⟩
    · exact ⟨_, .inr ⟨hnone, octets, rest, v, rfl, hv, rfl⟩⟩

/-- No frame is whole and runs on, since there is no choice where a value ends. -/
theorem not_isWhole_of_runsOn (h : RunsOn payload) : ¬ IsWhole payload := by
  obtain ⟨hnone, octets, rest, v, rfl, hrest, hv⟩ := h
  rintro (⟨members, hmembers⟩ | ⟨w, hw⟩)
  · exact hnone members hmembers
  · have hsplit : octets ++ rest = octets ++ rest ++ [] := (List.append_nil _).symm
    obtain ⟨-, -, hnil⟩ := (MessagePack.finds_readJsonWithin _).append_inj hv hw hsplit
    exact hrest hnil

/-- Every frame that begins with a character of ASCII is accepted. -/
theorem exists_classify_of_ascii {b : UInt8} (hb : b.toNat < 0x80) (rest : List UInt8) :
    ∃ message, classify (b :: rest) = .ok message := by
  have hv : IsData [b] (.integer (.ofUInt64 (UInt64.ofNat b.toNat))) :=
    .inl (.integer (.small hb (MessagePack.val_ofUInt64_ofNat (by omega))))
  by_cases hrecord : ∃ members, IsRecord (b :: rest) members
  · obtain ⟨members, hmembers⟩ := hrecord
    exact ⟨_, classify_eq_ok_iff.mpr (.inl ⟨members, hmembers, rfl⟩)⟩
  · exact ⟨_, classify_eq_ok_iff.mpr (.inr ⟨not_exists.mp hrecord, [b], rest, _, rfl, hv, rfl⟩)⟩

/-- Of every frame: it is accepted if it is whole or runs on, which no frame does both; so it is
accepted just if it is whole, unless it runs on. A frame that is not accepted is reported, and the
session stays as it was. -/
theorem accepts_whole_or_running (payload : List UInt8) :
    ((∃ message, classify payload = .ok message) ↔ IsWhole payload ∨ RunsOn payload) ∧
      (((∃ message, classify payload = .ok message) ↔ IsWhole payload) ↔ ¬ RunsOn payload) ∧
      (¬ (IsWhole payload ∨ RunsOn payload) →
        ∃ fault, classify payload = .error fault ∧ ∀ s : Session, s.state ≠ .disconnected →
          s.handleFrame payload = some (s, [.undecodable payload fault])) := by
  refine ⟨exists_classify_iff, ?_, fun hrefused => ?_⟩
  · rw [exists_classify_iff]
    exact ⟨fun h hruns => not_isWhole_of_runsOn hruns (h.mp (.inr hruns)), fun h => or_iff_left h⟩
  · rw [← exists_classify_iff, not_exists] at hrefused
    cases hclassify : classify payload with
    | ok message => exact absurd hclassify (hrefused message)
    | error fault =>
      refine ⟨fault, rfl, fun s hs => ?_⟩
      rw [Session.handleFrame, if_neg hs, hclassify]
      rfl

/-- The octet that is no marker is refused by a session that has just been connected. -/
theorem refuses_noMarker : ¬ (IsWhole [0xc1] ∨ RunsOn [0xc1]) ∧
    ∃ fault, classify [0xc1] = .error fault ∧
      (Session.new none).onConnected.handleFrame [0xc1] =
        some ((Session.new none).onConnected, [.undecodable [0xc1] fault]) := by
  have hrefused : ¬ (IsWhole [0xc1] ∨ RunsOn [0xc1]) := by
    have hrecord : record? [0xc1] = none := by decide +kernel
    have hread : MessagePack.readJson [0xc1] = .error (.wrongMarker 0xc1) := by
      rw [MessagePack.readJson, MessagePack.readJsonWithin]
      rfl
    rw [← exists_classify_iff, classify, hrecord, hread]
    rintro ⟨message, h⟩
    cases h
  obtain ⟨-, -, hreport⟩ := accepts_whole_or_running [0xc1]
  obtain ⟨fault, hfault, hsession⟩ := hreport hrefused
  exact ⟨hrefused, fault, hfault, hsession _ (by decide)⟩

/-- A list of nodes, cut short before the nodes. -/
def sampleCut : List UInt8 := Utf8.encode "\x7b\"availableNodes\":".toList

/-- It is accepted as the number that its first octet spells, although it is neither a record nor
a data value as a whole. -/
theorem accepts_sampleCut : (∃ message, classify sampleCut = .ok message) ∧
    RunsOn sampleCut ∧ ¬ IsWhole sampleCut := by
  have hruns : RunsOn sampleCut := by
    have hrecord : record? sampleCut = none := by decide +kernel
    have hv : IsData [0x7b] (.integer ⟨0x7b, by decide, by decide⟩) :=
      .inl (.integer (.small (by decide) rfl))
    exact ⟨record?_eq_none_iff.mp hrecord, [0x7b], sampleCut.tail, _, rfl, by decide, hv⟩
  exact ⟨exists_classify_iff.mpr (.inr hruns), hruns, not_isWhole_of_runsOn hruns⟩

end Inbound

end LiveTuner
