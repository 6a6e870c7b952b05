import LiveTuner.Message.Outbound
import LiveTuner.Proofs.Json.Written
import LiveTuner.Proofs.Message.Classification

/-!
# The names of nodes on the wire

The server lists its nodes in a record, and the program answers with a record that names one of
them. However the server chose to write the names, they are read as the same texts; and whatever
characters a name is made of, the answer is read as the same name.

## Main definitions

* `Inbound.Announces` — a text is a record that lists nodes
* `Outbound.Survives` — the choice of a node comes back as it was sent

## Main results

* `Inbound.classify_of_announces` — a list of nodes is understood, however it is written
* `Outbound.survives_of_ne` — any name but the reserved one survives
-/

namespace LiveTuner

/-! ### Lists of nodes -/

namespace Inbound

variable {text : List Char} {names : List String}

/-- A text is a record that lists the nodes: an object of one field, in which the names stand in
order. The key and the names may be written in any way, with any gaps in front of and behind the
parts. -/
inductive Announces : List Char → List String → Prop where
  /-- The parts of the record, in order. -/
  | record {g₁ g₂ g₃ g₄ g₅ g₆ key listing : List Char} {names : List String}
    (h₁ : Json.AreGaps g₁) (h₂ : Json.AreGaps g₂) (hkey : Json.IsLiteral key nodesKey.toList)
    (h₃ : Json.AreGaps g₃) (h₄ : Json.AreGaps g₄) (hlisting : Json.IsListing true listing names)
    (h₅ : Json.AreGaps g₅) (h₆ : Json.AreGaps g₆) :
    Announces (g₁ ++ '\x7b' :: (g₂ ++ key ++ g₃ ++ ':' ::
      (g₄ ++ '[' :: listing ++ (g₅ ++ '\x7d' :: g₆)))) names

/-- Every list of nodes can be announced, by what the writer writes for it. -/
theorem announces_chars (names : List String) :
    Announces (Json.object [(nodesKey, .array (names.map .string))]).chars names := by
  have hrecord := Announces.record Json.areGaps_nil Json.areGaps_nil
    (Json.isLiteral_textChars nodesKey) Json.areGaps_nil Json.areGaps_nil
    (Json.isListing_itemChars names) Json.areGaps_nil Json.areGaps_nil
  simpa [Json.chars, Json.memberChars] using hrecord

theorem read_of_announces (h : Announces text names) :
    Json.read text = .ok (.object [(nodesKey, .array (names.map .string))]) := by
  cases h with
  | record h₁ h₂ hkey h₃ h₄ hlisting h₅ h₆ =>
    refine Json.read_singleton h₁ (fun later => ?_) (fun rest => ?_) h₅ h₆
    · rw [List.append_assoc, List.append_assoc]
      exact Json.keyAt_first h₂ hkey h₃ later
    · rw [List.append_assoc, List.cons_append]
      exact hlisting.readValue h₄ _ rest

/-- A list of nodes is understood, however it is written. -/
theorem classify_of_announces (h : Announces text names) :
    classify (Utf8.encode text) = .ok (.nodes names) := by
  have hrecord : record? (Utf8.encode text) =
      some [(nodesKey, .array (names.map .string))] :=
    record?_eq_some_iff.mpr ⟨text, rfl, read_of_announces h⟩
  have hnames : (names.map Json.string).mapM text? = some names :=
    mapM_map_eq_pure fun _ _ => rfl
  rw [classify, hrecord]
  simp only [ofRecord, Json.member?, List.lookup_cons_self, hnames]

end Inbound

/-! ### Choices -/

namespace Outbound

/-- The choice of a node comes back as it was sent. Its frame is a text from which the same name is
read, one that stands for a node, and it is a control record for whoever classifies it. -/
def Survives (name : String) : Prop :=
  ∃ text, (choose name).encode = .text text ∧ readChoice? text = some name ∧ name ≠ noNode ∧
    Inbound.classify (Utf8.encode text.toList) =
      .ok (.unrecognized (.object [(choiceKey, .string name)]))

/-- The characters of the record that states a choice. -/
theorem chars_choice (name : String) : (Json.object [(choiceKey, .string name)]).chars =
    '\x7b' :: (Json.textChars choiceKey ++ ':' :: (Json.textChars name ++ ['\x7d'])) := by
  simp [Json.chars, Json.memberChars]

/-- The key of the record that states a choice, and where its value stands. -/
theorem keyAt_choiceKey (later : List Char) :
    Json.KeyAt true (Json.textChars choiceKey ++ ':' :: later) choiceKey later :=
  Json.keyAt_first Json.areGaps_nil (Json.isLiteral_textChars choiceKey) Json.areGaps_nil later

/-- The record that states a choice is read as data. -/
theorem read_choice (name : String) :
    Json.read (Json.object [(choiceKey, .string name)]).chars =
      .ok (.object [(choiceKey, .string name)]) := by
  rw [chars_choice]
  have hread := Json.read_singleton Json.areGaps_nil keyAt_choiceKey
    (fun rest => (Json.isLiteral_textChars name).readValue _ rest) Json.areGaps_nil
    Json.areGaps_nil
  exact hread

/-- It is read as a choice, too. -/
theorem readChoice?_choice (name : String) :
    readChoice? (Json.object [(choiceKey, .string name)]).compact = some name := by
  obtain ⟨t, ht⟩ : ∃ t, t = Json.textChars choiceKey ++ ':' :: (Json.textChars name ++ ['\x7d']) :=
    ⟨_, rfl⟩
  have hvalue := (Json.isLiteral_textChars name).readStringField Json.areGaps_nil ['\x7d']
  have hfields : Json.readFields choiceShape (t.length + 1) true none t =
      .ok (.ok (some name), ['\x7d']) := by
    -- There is a character for the field and one for the end.
    obtain ⟨bound, hbound⟩ : ∃ bound, t.length = bound + 1 :=
      Nat.exists_eq_succ_of_ne_zero (by simp [ht])
    rw [hbound, ht]
    refine ((keyAt_choiceKey _).readFields rfl rfl ?_ _).trans
      (Json.readFields_close Json.areGaps_nil bound false (some name) [])
    exact congrArg (Except.map _) hvalue
  have hcomplete : choiceShape.complete (some name) = .ok name := rfl
  have hrecord :=
    Json.readWholeRecord_object Json.areGaps_nil hfields hcomplete Json.areGaps_nil
  rw [readChoice?, Json.compact, String.toList_ofList, chars_choice, ← ht]
  exact congrArg Except.toOption hrecord

/-- Any name but the reserved one survives. -/
theorem survives_of_ne {name : String} (h : name ≠ noNode) : Survives name := by
  refine ⟨_, rfl, readChoice?_choice name, h, ?_⟩
  rw [Json.compact, String.toList_ofList, Inbound.classify,
    Inbound.record?_eq_some_iff.mpr ⟨_, rfl, read_choice name⟩]
  rfl

end Outbound

end LiveTuner
