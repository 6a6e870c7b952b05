import LiveTuner.Param.Definition
import LiveTuner.Proofs.MessagePack.Data
import LiveTuner.Proofs.Outcome

/-!
# Reading definitions back

A definition as data leaves out the fields that are absent, and reading leaves absent the fields
that are left out. Every field that is there is read back by itself, groups by what holds of the
definitions in them, so a definition is read back whole.

Data values know only finite numbers, so the bounds and the steps are taken to be finite.

## Main definitions

* `Definition.isFinite` — the bounds and the steps of a definition are finite
* `Definition.WellFormed` — no object and no group of a definition holds a key twice

## Main results

* `Definition.ofJson_toJson` — a definition is read back
* `Definition.wellFormed_toJson` — as data it holds no key twice
-/

namespace LiveTuner

/-- Every bound is finite. -/
def Bound.isFinite : Bound → Bool
  | uniform x => x.isFinite
  | perIndex xs => xs.all Binary64.isFinite

namespace Definition

mutual

/-- The bounds and the steps of the definition, and of all those in it, are finite. -/
def isFinite (d : Definition) : Bool :=
  match d with
  | ⟨_, _, _, min, max, _, step, _, params, _⟩ =>
    min.all Bound.isFinite && max.all Bound.isFinite && step.all Binary64.isFinite &&
      match params with
      | none => true
      | some members => membersFinite members

/-- So are those of definitions under attributes. -/
def membersFinite : List (String × Definition) → Bool
  | [] => true
  | (_, d) :: rest => isFinite d && membersFinite rest

end

mutual

/-- No object within the values, and no group, holds a key twice. -/
def WellFormed (d : Definition) : Prop :=
  match d with
  | ⟨_, _, val, _, _, _, _, oneof, params, _⟩ =>
    val.WellFormed ∧ (∀ options ∈ oneof, ∀ v ∈ options, v.WellFormed) ∧
      match params with
      | none => True
      | some members => (members.map Prod.fst).Nodup ∧ WellFormedMembers members

/-- So it is with definitions under attributes. -/
def WellFormedMembers : List (String × Definition) → Prop
  | [] => True
  | (_, d) :: rest => WellFormed d ∧ WellFormedMembers rest

end

/-- Induction over a definition: a group may use what holds of the definitions in it. -/
@[elab_as_elim]
theorem induction {motive : Definition → Prop}
    (h : ∀ d, (∀ members, d.params = some members → ∀ p ∈ members.map Prod.snd, motive p) →
      motive d) (d : Definition) : motive d :=
  @Definition.rec motive (fun params => ∀ members, params = some members →
      ∀ p ∈ members.map Prod.snd, motive p)
    (fun members => ∀ p ∈ members.map Prod.snd, motive p) (fun member => motive member.2)
    (fun _ _ _ _ _ _ _ _ _ _ ih => h _ ih) (fun _ h => by cases h)
    (fun _ ih _ h => by cases h; exact ih) (fun _ h => absurd h List.not_mem_nil)
    (fun _ _ hmember hrest => List.forall_mem_cons.mpr ⟨hmember, hrest⟩) (fun _ _ ih => ih) d

variable {d : Definition} {members : List (String × Definition)}

theorem membersFinite_iff :
    membersFinite members = true ↔ ∀ p ∈ members.map Prod.snd, p.isFinite = true := by
  induction members with
  | nil => simp [membersFinite]
  | cons member rest ih =>
    rw [membersFinite, Bool.and_eq_true, ih, List.map_cons, List.forall_mem_cons]

theorem isFinite_iff : d.isFinite = true ↔
    (∀ b ∈ d.min, b.isFinite = true) ∧ (∀ b ∈ d.max, b.isFinite = true) ∧
      (∀ x ∈ d.step, x.isFinite = true) ∧
      ∀ members ∈ d.params, ∀ p ∈ members.map Prod.snd, p.isFinite = true := by
  obtain ⟨id, name, val, min, max, logScale, step, oneof, params, hidden⟩ := d
  rw [isFinite.eq_def, Bool.and_eq_true, Bool.and_eq_true, Bool.and_eq_true, Option.all_eq_true,
    Option.all_eq_true, Option.all_eq_true, and_assoc, and_assoc]
  cases params with
  | none => simp
  | some members => simp [membersFinite_iff]

theorem wellFormedMembers_iff :
    WellFormedMembers members ↔ ∀ p ∈ members.map Prod.snd, p.WellFormed := by
  induction members with
  | nil => simp [WellFormedMembers]
  | cons member rest ih => rw [WellFormedMembers, ih, List.map_cons, List.forall_mem_cons]

theorem wellFormed_iff : d.WellFormed ↔
    d.val.WellFormed ∧ (∀ options ∈ d.oneof, ∀ v ∈ options, v.WellFormed) ∧
      ∀ members ∈ d.params, (members.map Prod.fst).Nodup ∧
        ∀ p ∈ members.map Prod.snd, p.WellFormed := by
  obtain ⟨id, name, val, min, max, logScale, step, oneof, params, hidden⟩ := d
  rw [WellFormed.eq_def]
  cases params with
  | none => simp
  | some members => simp [wellFormedMembers_iff]

theorem membersJson_eq (members : List (String × Definition)) :
    membersJson members = members.map fun m => (m.1, m.2.toJson) := by
  induction members with
  | nil => rfl
  | cons member rest ih => rw [membersJson, ih, List.map_cons]

/-! ### Fields -/

theorem ofReal_ne_null {x : Binary64} (h : x.isFinite = true) : Json.ofReal x ≠ .null := by
  rw [Json.ofReal, dif_pos h]
  exact Json.noConfusion

theorem toReal?_ofReal {x : Binary64} (h : x.isFinite = true) :
    (Json.ofReal x).toReal? = some x := by
  rw [Json.ofReal, dif_pos h]
  rfl

theorem mapM_toReal?_ofReal {xs : List Binary64} (h : ∀ x ∈ xs, x.isFinite = true) :
    (xs.map Json.ofReal).mapM Json.toReal? = some xs :=
  mapM_map_eq_pure fun x hx => toReal?_ofReal (h x hx)

theorem readReal_ofReal {x : Binary64} (h : x.isFinite = true) : readReal (.ofReal x) = .ok x := by
  rw [readReal, toReal?_ofReal h]

theorem readList_ok (items : List Json) : readList .ok (.array items) = .ok items := by
  have h : (items.map fun v => v).mapM (.ok : Json → Except Mismatch Json) = .ok items :=
    mapM_map_eq_pure fun _ _ => rfl
  rwa [List.map_id'] at h

theorem readList_readText (names : List String) :
    readList readText (.array (names.map .string)) = .ok names := by
  have h : (names.map Json.string).mapM readText = .ok names := mapM_map_eq_pure fun _ _ => rfl
  exact h

theorem boundJson_ne_null {b : Bound} (h : b.isFinite = true) : boundJson b ≠ .null := by
  cases b with
  | uniform x => exact ofReal_ne_null h
  | perIndex xs => exact Json.noConfusion

/-- A bound is read back in its kind: no sequence is read as a number. -/
theorem readBound_boundJson {b : Bound} (h : b.isFinite = true) :
    readBound (boundJson b) = .ok b := by
  cases b with
  | uniform x =>
    have hx : x.isFinite = true := h
    rw [boundJson, Json.ofReal, dif_pos hx]
    rfl
  | perIndex xs =>
    rw [Bound.isFinite, List.all_eq_true] at h
    rw [boundJson, readBound, mapM_toReal?_ofReal h]

theorem readOptional_of_ok {α : Type} {read : Json → Except Mismatch α} {v : Json} {a : α}
    (hv : v ≠ .null) (h : read v = .ok a) : readOptional read v = .ok (some a) := by
  cases v with
  | null => exact absurd rfl hv
  | _ =>
    rw [readOptional]
    · rw [h]; rfl
    · exact hv

/-- A field that is there is read before the rest. -/
theorem readFields_cons {field : String} {v : Json} {rest : List (String × Json)}
    {draft draft' : Draft} (hfield : field ≠ "params") (h : draft.set field v = .ok draft') :
    readFields ((field, v) :: rest) draft = readFields rest draft' := by
  rw [readFields, if_neg hfield, h]
  rfl

/-- A field that may be left out is read before the rest, whether it is there or not. -/
theorem readFields_optionalField {α : Type} {field : String} {toJson : α → Json}
    {read : Json → Except Mismatch α} {a : Option α} {rest : List (String × Json)} {draft : Draft}
    (update : Option α → Draft) (hfield : field ≠ "params") (habsent : update none = draft)
    (hset : ∀ v, draft.set field v = (readOptional read v).map update)
    (hread : ∀ v ∈ a, toJson v ≠ .null ∧ read (toJson v) = .ok v) :
    readFields (optionalField field toJson a ++ rest) draft = readFields rest (update a) := by
  cases a with
  | none => rw [optionalField, List.nil_append, habsent]
  | some v =>
    obtain ⟨hnull, hv⟩ := hread v rfl
    have hfilled : draft.set field (toJson v) = .ok (update (some v)) := by
      rw [hset, readOptional_of_ok hnull hv]
      rfl
    exact readFields_cons hfield hfilled

/-! ### Definitions -/

/-- The fields of a definition as data, in order. -/
def fields (d : Definition) : List (String × Json) :=
  ("id", .ofInt64 d.id.number) :: ("name", .string d.name) :: ("val", d.val) ::
    (optionalField "min" boundJson d.min ++
    (optionalField "max" boundJson d.max ++
    (optionalField "log_scale" .bool d.logScale ++
    (optionalField "step" .ofReal d.step ++
    (optionalField "oneof" .array d.oneof ++
    (optionalField "params" (fun members => .object (membersJson members)) d.params ++
    (optionalField "hidden" (fun names => .array (names.map .string)) d.hidden ++ [])))))))

theorem toJson_eq (d : Definition) : d.toJson = .object d.fields := by
  obtain ⟨id, name, val, min, max, logScale, step, oneof, params, hidden⟩ := d
  rw [toJson.eq_def]
  cases params <;> simp [fields, optionalField]

theorem readMembers_membersJson (h : ∀ p ∈ members.map Prod.snd, ofJson p.toJson = .ok p) :
    readMembers (membersJson members) = .ok members := by
  induction members with
  | nil => rfl
  | cons member rest ih =>
    obtain ⟨hmember, hrest⟩ := List.forall_mem_cons.mp h
    rw [membersJson, readMembers, hmember, ih hrest]
    rfl

theorem readId_ofInt64 (n : Int64) : readId (.ofInt64 n) = .ok ⟨n⟩ := by
  rw [Json.ofInt64, readId, WireInteger.toInt64?_ofInt64]

/-- The fields that every definition has. -/
theorem readFields_mandatory (id : ParamId) (name : String) (val : Json)
    (rest : List (String × Json)) :
    readFields (("id", .ofInt64 id.number) :: ("name", .string name) :: ("val", val) :: rest)
      .empty = readFields rest ⟨some id, some name, bare default "" val⟩ := by
  have hid : Draft.empty.set "id" (.ofInt64 id.number) =
      .ok { Draft.empty with id := some id } := by
    change (readId _).map _ = _
    rw [readId_ofInt64]
    rfl
  rw [readFields_cons (by decide) hid, readFields_cons (by decide) rfl,
    readFields_cons (by decide) rfl]
  rfl

/-- The parameters of a group are read as an optional field is. -/
theorem readFields_params {params : Option (List (String × Definition))}
    {rest : List (String × Json)} {draft : Draft} (habsent : draft.setParams none = draft)
    (h : ∀ members ∈ params, readMembers (membersJson members) = .ok members) :
    readFields
        (optionalField "params" (fun members => .object (membersJson members)) params ++ rest)
        draft =
      readFields rest (draft.setParams params) := by
  cases params with
  | none => rw [optionalField, List.nil_append, habsent]
  | some members =>
    rw [optionalField, List.singleton_append, readFields, if_pos rfl, readParams, h members rfl]
    rfl

/-- Every field fills its place in the draft and leaves the places of later ones empty. -/
theorem readFields_fields (h : d.isFinite = true)
    (hmembers : ∀ members ∈ d.params, readMembers (membersJson members) = .ok members) :
    readFields d.fields .empty =
      .ok ⟨some d.id, some d.name, { d with id := default, name := "" }⟩ := by
  obtain ⟨hmin, hmax, hstep, -⟩ := isFinite_iff.mp h
  obtain ⟨id, name, val, min, max, logScale, step, oneof, params, hidden⟩ := d
  have hbound : ∀ b : Bound, b.isFinite = true →
      boundJson b ≠ .null ∧ readBound (boundJson b) = .ok b :=
    fun b hb => ⟨boundJson_ne_null hb, readBound_boundJson hb⟩
  have hreal : ∀ x : Binary64, x.isFinite = true →
      Json.ofReal x ≠ .null ∧ readReal (.ofReal x) = .ok x :=
    fun x hx => ⟨ofReal_ne_null hx, readReal_ofReal hx⟩
  -- Each step names the draft as it stands once the field has been read, be it there or not.
  refine (readFields_mandatory id name val _).trans ?_
  refine (readFields_optionalField
    (fun min => ⟨some id, some name, { bare default "" val with min }⟩)
    (by decide) rfl (fun _ => rfl) fun b hb => hbound b (hmin b hb)).trans ?_
  refine (readFields_optionalField
    (fun max => ⟨some id, some name, { bare default "" val with min, max }⟩)
    (by decide) rfl (fun _ => rfl) fun b hb => hbound b (hmax b hb)).trans ?_
  refine (readFields_optionalField
    (fun logScale => ⟨some id, some name, { bare default "" val with min, max, logScale }⟩)
    (by decide) rfl (fun _ => rfl) fun _ _ => ⟨Json.noConfusion, rfl⟩).trans ?_
  refine (readFields_optionalField
    (fun step => ⟨some id, some name, { bare default "" val with min, max, logScale, step }⟩)
    (by decide) rfl (fun _ => rfl) fun x hx => hreal x (hstep x hx)).trans ?_
  refine (readFields_optionalField
    (fun oneof => ⟨some id, some name,
      { bare default "" val with min, max, logScale, step, oneof }⟩)
    (by decide) rfl (fun _ => rfl) fun items _ => ⟨Json.noConfusion, readList_ok items⟩).trans ?_
  refine (readFields_params rfl hmembers).trans ?_
  refine (readFields_optionalField
    (fun hidden => ⟨some id, some name,
      ⟨default, "", val, min, max, logScale, step, oneof, params, hidden⟩⟩)
    (by decide) rfl (fun _ => rfl) fun names _ =>
      ⟨Json.noConfusion, readList_readText names⟩).trans ?_
  rfl

/-- A definition with finite bounds and steps is read back whole. -/
theorem ofJson_toJson (d : Definition) (h : d.isFinite = true) : ofJson d.toJson = .ok d := by
  induction d using induction with
  | h d ih =>
    have hmembers : ∀ members ∈ d.params, readMembers (membersJson members) = .ok members := by
      intro members hm
      apply readMembers_membersJson
      intro p hp
      exact ih members hm p hp ((isFinite_iff.mp h).2.2.2 members hm p hp)
    rw [toJson_eq, ofJson, readFields_fields h hmembers]
    cases d
    rfl

/-! ### Keys -/

theorem keys_optionalField {α : Type} (field : String) (toJson : α → Json) (a : Option α) :
    ((optionalField field toJson a).map Prod.fst).Sublist [field] := by
  cases a with
  | none => exact List.nil_sublist _
  | some v => exact List.Sublist.refl _

/-- The fields stand in the order of their names, so none is written twice. -/
theorem nodup_keys_fields (d : Definition) : (d.fields.map Prod.fst).Nodup := by
  have hsublist : (d.fields.map Prod.fst).Sublist fieldNames := by
    simp only [fields, List.map_cons, List.map_append]
    -- Three fields are always there, and each of the other seven is there or not.
    refine .cons_cons _ (.cons_cons _ (.cons_cons _ ?_))
    iterate 7 refine .append (keys_optionalField _ _ _) ?_
    exact List.nil_sublist _
  exact hsublist.nodup (by decide)

theorem wellFormed_ofReal (x : Binary64) : (Json.ofReal x).WellFormed := by
  rw [Json.ofReal]
  split <;> trivial

theorem wellFormed_optionalField {α : Type} {field : String} {toJson : α → Json} {a : Option α}
    (h : ∀ v ∈ a, (toJson v).WellFormed) :
    ∀ v ∈ (optionalField field toJson a).map Prod.snd, v.WellFormed := by
  cases a with
  | none => intro v hv; cases hv
  | some v => simpa [optionalField] using h

theorem wellFormed_boundJson (b : Bound) : (boundJson b).WellFormed := by
  cases b with
  | uniform x => exact wellFormed_ofReal x
  | perIndex xs =>
    rw [boundJson, Json.WellFormed, Json.wellFormedItems_iff]
    intro v hv
    obtain ⟨x, -, rfl⟩ := List.mem_map.mp hv
    exact wellFormed_ofReal x

/-- A definition that holds no key twice holds none twice as data. -/
theorem wellFormed_toJson (d : Definition) (h : d.WellFormed) : d.toJson.WellFormed := by
  induction d using induction with
  | h d ih =>
    obtain ⟨hval, honeof, hparams⟩ := wellFormed_iff.mp h
    have hoptions : ∀ options ∈ d.oneof, (Json.array options).WellFormed := by
      intro options hoptions
      rw [Json.WellFormed, Json.wellFormedItems_iff]
      exact honeof options hoptions
    have hmembers : ∀ members ∈ d.params, (Json.object (membersJson members)).WellFormed := by
      intro members hm
      obtain ⟨hnodup, hwell⟩ := hparams members hm
      rw [Json.WellFormed, Json.wellFormedMembers_iff, membersJson_eq, List.map_map, List.map_map]
      refine ⟨hnodup, ?_⟩
      intro v hv
      obtain ⟨member, hmember, rfl⟩ := List.mem_map.mp hv
      have hp := List.mem_map_of_mem (f := Prod.snd) hmember
      exact ih members hm _ hp (hwell _ hp)
    have hnames : ∀ names : List String, (Json.array (names.map .string)).WellFormed := by
      intro names
      rw [Json.WellFormed, Json.wellFormedItems_iff]
      intro v hv
      obtain ⟨name, -, rfl⟩ := List.mem_map.mp hv
      trivial
    rw [toJson_eq, Json.WellFormed, Json.wellFormedMembers_iff]
    refine ⟨nodup_keys_fields d, ?_⟩
    simp only [fields, List.map_cons, List.map_append, List.forall_mem_cons,
      List.forall_mem_append]
    exact ⟨trivial, trivial, hval,
      wellFormed_optionalField fun b _ => wellFormed_boundJson b,
      wellFormed_optionalField fun b _ => wellFormed_boundJson b,
      wellFormed_optionalField fun _ _ => trivial,
      wellFormed_optionalField fun x _ => wellFormed_ofReal x,
      wellFormed_optionalField hoptions,
      wellFormed_optionalField hmembers,
      wellFormed_optionalField fun names _ => hnames names,
      fun _ hv => absurd hv List.not_mem_nil⟩

end Definition

end LiveTuner
