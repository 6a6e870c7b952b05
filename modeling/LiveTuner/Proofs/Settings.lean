import LiveTuner.Launch
import LiveTuner.Proofs.Json.Written
import LiveTuner.Proofs.Text.Utf8

/-!
# Saved settings

What the writer puts over lines for a person to edit is read back as the same settings, whatever
characters the texts in it are made of. A node that is not preferred is left out of the file, and
the default for what is left out is that none is preferred; a node whose name is the empty text is
written like any other.

So on a host whose files hold what was written to them, settings that were saved are the settings
that are loaded.

## Main definitions

* `Json.Takes` — the fields of a record take members one after the other
* `Host.Remembers` — what was written to a file is read from it

## Main results

* `Json.Takes.readFields` — members over lines are read into what is known of a record
* `Settings.read_text` — the text of settings is read as the settings
* `Host.loads_saved` — saved settings are loaded
-/

namespace LiveTuner

/-! ### Records over lines -/

namespace Json

variable {σ α : Type} {shape : RecordShape σ α} {known known' : σ} {level : Nat}
  {g rest : List Char} {members : List (String × Json)}

theorem areGaps_lineStart (level : Nat) : AreGaps (lineStart level) := by
  simp [AreGaps, lineStart, isGap]

theorem areGaps_blank : AreGaps [' '] := by
  simp [AreGaps, isGap]

/-- The fields of a record take members, as they are written over lines, one after the other. No
field takes a second one. -/
inductive Takes (shape : RecordShape σ α) (level : Nat) : σ → List (String × Json) → σ → Prop where
  /-- There are no members left. -/
  | nil {known : σ} : Takes shape level known [] known
  /-- The field of the next member's key takes its value, and the others are taken behind it. -/
  | cons {known next known' : σ} {key : String} {v : Json} {members : List (String × Json)}
    (field : FieldReader σ) (hfield : shape.fields.find? (·.name = key) = some field)
    (hnew : field.isRead known = false)
    (hvalue : ∀ rest, field.readInto known (' ' :: (prettyChars level v ++ rest)) =
      .ok (next, rest))
    (hmembers : Takes shape level next members known') :
    Takes shape level known ((key, v) :: members) known'

/-- The members behind one that is written. -/
def furtherMembers (level : Nat) (members : List (String × Json)) : List Char :=
  if members = [] then [] else ',' :: prettyMembers level members

theorem prettyMembers_cons (level : Nat) (key : String) (v : Json)
    (members : List (String × Json)) :
    prettyMembers level ((key, v) :: members) = lineStart level ++ (textChars key ++
      (':' :: ' ' :: (prettyChars level v ++ furtherMembers level members))) := by
  cases members <;> simp [prettyMembers, furtherMembers]

/-- The first member over lines, and any other behind a comma. -/
theorem keyAt_lineStart (level : Nat) (key : String) (later : List Char) :
    KeyAt true (lineStart level ++ (textChars key ++ ':' :: later)) key later ∧
      KeyAt false (',' :: (lineStart level ++ (textChars key ++ ':' :: later))) key later :=
  ⟨keyAt_first (areGaps_lineStart level) (isLiteral_textChars key) areGaps_nil later,
    keyAt_later areGaps_nil (areGaps_lineStart level) (isLiteral_textChars key) areGaps_nil later⟩

namespace Takes

variable {bound : Nat}

/-- Members behind one that has been taken. -/
theorem readFurther (h : Takes shape level known members known') (hg : AreGaps g)
    (rest : List Char) (hbound : members.length < bound) :
    readFields shape bound false known (furtherMembers level members ++ (g ++ '\x7d' :: rest)) =
      .ok (.ok known', '\x7d' :: rest) := by
  -- The end of the record takes one step more than the members do.
  induction h generalizing bound with
  | nil =>
    obtain ⟨bound, rfl⟩ := Nat.exists_eq_succ_of_ne_zero (Nat.ne_zero_of_lt hbound)
    exact readFields_close hg bound false _ rest
  | @cons known next known' key v members field hfield hnew hvalue _ ih =>
    obtain ⟨bound, rfl⟩ := Nat.exists_eq_succ_of_ne_zero (Nat.ne_zero_of_lt hbound)
    rw [furtherMembers, if_neg (List.cons_ne_nil _ _), prettyMembers_cons]
    simp only [List.cons_append, List.append_assoc]
    rw [(keyAt_lineStart level key _).2.readFields hfield hnew (hvalue _)]
    exact ih (Nat.lt_of_succ_lt_succ hbound)

/-- Members over lines are read into what is known of the record. -/
theorem readFields (h : Takes shape level known members known') (hg : AreGaps g)
    (rest : List Char) (hbound : members.length < bound) :
    Json.readFields shape bound true known (prettyMembers level members ++ (g ++ '\x7d' :: rest)) =
      .ok (.ok known', '\x7d' :: rest) := by
  obtain ⟨bound, rfl⟩ := Nat.exists_eq_succ_of_ne_zero (Nat.ne_zero_of_lt hbound)
  cases h with
  | nil => exact readFields_close hg bound true known rest
  | @cons _ next _ key v members field hfield hnew hvalue hmembers =>
    rw [prettyMembers_cons]
    simp only [List.cons_append, List.append_assoc]
    rw [(keyAt_lineStart level key _).1.readFields hfield hnew (hvalue _)]
    exact hmembers.readFurther hg rest (Nat.lt_of_succ_lt_succ hbound)

end Takes

/-- Each member over lines begins with a line break. -/
theorem length_le_length_prettyMembers (level : Nat) (members : List (String × Json)) :
    members.length ≤ (prettyMembers level members).length := by
  induction members with
  | nil => exact Nat.zero_le _
  | cons member members ih =>
    obtain ⟨key, v⟩ := member
    have hfurther : members.length ≤ (furtherMembers level members).length := by
      rw [furtherMembers]
      split_ifs with hnone
      · simp [hnone]
      · exact Nat.le_succ_of_le ih
    rw [prettyMembers_cons]
    simp only [List.length_append, List.length_cons]
    omega

/-- A record whose members are taken is read from its text over lines. -/
theorem Takes.readWholeRecord {record : α} (h : Takes shape 1 shape.start members known)
    (hcomplete : shape.complete known = .ok record) :
    readWholeRecord shape (prettyChars 0 (.object members)) = .ok record := by
  cases members with
  -- An object without members is written on one line.
  | nil =>
    cases h
    have hfields : Json.readFields shape 2 true shape.start ['\x7d'] =
        .ok (.ok shape.start, ['\x7d']) := readFields_close areGaps_nil 1 true shape.start []
    have hrecord := readWholeRecord_object areGaps_nil hfields hcomplete areGaps_nil
    exact hrecord
  | cons member members =>
    obtain ⟨t, ht⟩ : ∃ t, t = prettyMembers 1 (member :: members) ++ (lineStart 0 ++ ['\x7d']) :=
      ⟨_, rfl⟩
    have hchars : prettyChars 0 (.object (member :: members)) = '\x7b' :: t := by
      simp [prettyChars, ht]
    have hfields : Json.readFields shape (t.length + 1) true shape.start t =
        .ok (.ok known, ['\x7d']) := by
      rw [ht]
      refine h.readFields (areGaps_lineStart 0) [] ?_
      have hlength := length_le_length_prettyMembers 1 (member :: members)
      rw [List.length_append]
      omega
    rw [hchars]
    have hrecord := readWholeRecord_object areGaps_nil hfields hcomplete areGaps_nil
    exact hrecord

/-- A text is read where a record may have one or none. -/
theorem readOptionalString_textChars (s : String) (hg : AreGaps g) (rest : List Char) :
    readOptionalString (g ++ (textChars s ++ rest)) = .ok (some s, rest) := by
  have hread := (isLiteral_textChars s).readStringField areGaps_nil rest
  have hskip : skipGaps (g ++ (textChars s ++ rest)) = textChars s ++ rest :=
    skipGaps_append_cons hg rfl _
  rw [readOptionalString, hskip]
  exact congrArg (Except.map _) hread

/-- A truth value is read. -/
theorem readBool_boolChars (b : Bool) (hg : AreGaps g) (rest : List Char) :
    readBool (g ++ (boolChars b ++ rest)) = .ok (b, rest) := by
  cases b with
  | false =>
    have hskip : skipGaps (g ++ (boolChars false ++ rest)) = 'f' :: ("alse".toList ++ rest) :=
      skipGaps_append_cons hg rfl _
    rw [readBool, hskip]
    rfl
  | true =>
    have hskip : skipGaps (g ++ (boolChars true ++ rest)) = 't' :: ("rue".toList ++ rest) :=
      skipGaps_append_cons hg rfl _
    rw [readBool, hskip]
    rfl

end Json

/-! ### Settings -/

namespace Settings

variable {draft : Draft}

/-! The fields take what is written for them, each once. -/

theorem takes_url {members : List (String × Json)} {draft' : Draft} (url : String)
    (h : Json.Takes shape 1 ⟨some url, none, none⟩ members draft') :
    Json.Takes shape 1 shape.start ((urlKey, .string url) :: members) draft' := by
  refine .cons _ rfl rfl (fun rest => ?_) h
  exact congrArg (Except.map _)
    ((Json.isLiteral_textChars url).readStringField Json.areGaps_blank rest)

theorem takes_node {members : List (String × Json)} {draft' : Draft} (node : String)
    (hnew : draft.preferredNode = none)
    (h : Json.Takes shape 1 { draft with preferredNode := some (some node) } members draft') :
    Json.Takes shape 1 draft ((nodeKey, .string node) :: members) draft' := by
  refine .cons _ rfl (by simp [hnew]) (fun rest => ?_) h
  exact congrArg (Except.map _) (Json.readOptionalString_textChars node Json.areGaps_blank rest)

theorem takes_print (b : Bool) (hnew : draft.printOnChange = none) :
    Json.Takes shape 1 draft [(printKey, .bool b)] { draft with printOnChange := some b } := by
  refine .cons _ rfl (by simp [hnew]) (fun rest => ?_) .nil
  exact congrArg (Except.map _) (Json.readBool_boolChars b Json.areGaps_blank rest)

/-- The text of settings is read as the settings. -/
theorem read_text (s : Settings) : read s.text = .ok s := by
  obtain ⟨url, node, print⟩ := s
  rw [read, text, Json.pretty, String.toList_ofList, toJson]
  -- A node that is not preferred is left out, and is not there by default.
  cases node with
  | none => exact (takes_url url (takes_print print rfl)).readWholeRecord rfl
  | some node =>
    exact (takes_url url (takes_node node rfl (takes_print print rfl))).readWholeRecord rfl

end Settings

/-! ### Files -/

/-- The host's files hold what was written to them: what is read from a file right after it has been
written is that text. -/
def Host.Remembers {m : Type → Type} [Monad m] (host : Host m) : Prop :=
  ∀ (path text : String) {β : Type} (next : Except String Unit → Except String String → m β),
    (do
      let written ← host.write path text
      let held ← host.read path
      next written held) =
    (do
      let written ← host.write path text
      match written with
      | .ok () => next written (.ok text)
      | .error _ =>
        let held ← host.read path
        next written held)

namespace Settings

/-- Settings survive being saved. The text that is written for them, and its octets, are read as the
same settings; so a host whose files hold what was written to them loads settings as they were
saved, unless they could not be saved. -/
theorem loads_saved (s : Settings) :
    (∀ path, ofFile path (.ok s.text) = .ok s) ∧
      Utf8.decode (Utf8.encode s.text.toList) = .ok s.text.toList ∧
      ∀ {m : Type → Type} [Monad m] [LawfulMonad m] (host : Host m), host.Remembers →
        ∀ directory, (do
            let ending ← host.saveSettings directory s
            let loaded ← host.readSettings directory
            return (ending, loaded)) =
          (do
            match ← host.write (filePath directory) s.text with
            | .ok () => return (s.saved directory, .ok s)
            | .error reason =>
              let loaded ← host.readSettings directory
              return (s.notSaved (filePath directory) reason, loaded)) := by
  have hfile (path : String) : ofFile path (.ok s.text) = .ok s := by
    rw [ofFile, read_text]
  refine ⟨hfile, Utf8.decode_encode _, fun host hremembers directory => ?_⟩
  -- Both programs are brought to one shape: a writing, a reading, and what is made of the two.
  have hheld := hremembers (filePath directory) s.text fun written held => pure
    (match written with
      | .ok () => s.saved directory
      | .error reason => s.notSaved (filePath directory) reason,
    ofFile (filePath directory) held)
  refine Eq.trans ?_ (hheld.trans ?_)
  · simp only [Host.saveSettings, Host.readSettings, bind_assoc, pure_bind]
    refine bind_congr fun written => ?_
    cases written <;> simp only [pure_bind]
  · refine bind_congr fun written => ?_
    cases written with
    | ok => simp only [hfile]
    | error reason => simp only [Host.readSettings, bind_assoc, pure_bind]

/-- Files without a host around them: the text at each path, if there is one. -/
def sampleDisk : Host (StateM (String → Option String)) where
  lookUp _ := pure none
  read path files := (((files path).map .ok).getD (.error "No such file"), files)
  write path text files := (.ok (), fun other => if other = path then some text else files other)
  makeDirectory _ := pure .made
  isDirectory _ := pure true

theorem remembers_sampleDisk : sampleDisk.Remembers := by
  intro path text β next
  funext files
  simp [sampleDisk, bind, StateT.bind]

/-- Settings with a quote, a line break and the empty name in them, saved and loaded. -/
def sampleSettings : Settings := ⟨"ws://\"lab\"\n:9000/ws", some "", false⟩

theorem loads_saved_sampleSettings : sampleDisk.Remembers ∧
    ∃ files, (do
        let ending ← sampleDisk.saveSettings "tuner" sampleSettings
        let loaded ← sampleDisk.readSettings "tuner"
        return (ending, loaded)) (fun _ => none) =
      ((sampleSettings.saved "tuner", .ok sampleSettings), files) := by
  obtain ⟨-, -, hloads⟩ := loads_saved sampleSettings
  exact ⟨remembers_sampleDisk, _, congrFun (hloads sampleDisk remembers_sampleDisk "tuner") _⟩

end Settings

end LiveTuner
