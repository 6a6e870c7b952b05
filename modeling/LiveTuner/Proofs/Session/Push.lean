import LiveTuner.Proofs.EditorTree.Acyclic
import LiveTuner.Proofs.MessagePack.Data
import LiveTuner.Proofs.Session.Lasting

/-!
# Pairs in a frame

A data frame does not say what it is. A pair of an id and a value is a value push, any other list is
read as a list of definitions, and a definition may come as a list of its fields. A pair of an id
and something else is therefore not refused as a push: it is read as two definitions. The id is
none. If the other item is none either, both are reported and nothing changes.

If it is a definition, that is, a list that begins with an id of its own and a name, then the
parameter of that id is defined anew, although nothing was to happen to it.

## Main definitions

* `Registry.Takes`, `EditorTree.Takes`, `Session.Takes` — all that a value push does

## Main results

* `Definition.exists_of_ofJson_array` — how a definition begins that comes as a list
* `Session.IsOrdered.pushValue` — a value push is taken, or reported only
* `Session.takes_or_stays_of_pair` — so is a pair whose second item is no definition
-/

namespace LiveTuner

/-! ### Definitions that come as lists -/

namespace Definition

variable {v : Json} {d : Definition} {draft : Draft} {items : List Json}

theorem exists_of_readId {i : ParamId} (h : readId v = .ok i) : ∃ n, v = .integer n := by
  cases v with
  | integer n => exact ⟨n, rfl⟩
  | null | bool | real | string | array | object => simp [readId, mismatch] at h

theorem eq_of_readText {s : String} (h : readText v = .ok s) : v = .string s := by
  cases v with
  | string s' =>
    obtain rfl := Except.ok.inj h
    rfl
  | null | bool | real | integer | array | object => simp [readText, mismatch] at h

/-- The first item of a list is read as the id. -/
theorem readPositions_id (v : Json) (rest : List Json) (draft : Draft) :
    readPositions fieldNames (v :: rest) draft =
      (readId v).bind fun id =>
        readPositions fieldNames.tail rest { draft with id := some id } := by
  rw [fieldNames, readPositions, if_neg (by decide), Draft.set]
  cases readId v <;> rfl

/-- The second item is read as the name. -/
theorem readPositions_name (v : Json) (rest : List Json) (draft : Draft) :
    readPositions fieldNames.tail (v :: rest) draft =
      (readText v).bind fun name =>
        readPositions fieldNames.tail.tail rest { draft with name := some name } := by
  rw [fieldNames, List.tail_cons, readPositions, if_neg (by decide), Draft.set]
  cases readText v <;> rfl

/-- A definition that comes as a list begins with an integer and a text. -/
theorem exists_of_ofJson_array (h : ofJson (.array items) = .ok d) :
    ∃ i name rest, items = .integer i :: .string name :: rest := by
  rw [ofJson] at h
  -- The first two items are the id and the name; without either the list is refused.
  cases items with
  | nil => cases h
  | cons v rest =>
    rw [readPositions_id] at h
    cases hid : readId v with
    | error m =>
      rw [hid] at h
      cases h
    | ok id =>
      obtain ⟨i, rfl⟩ := exists_of_readId hid
      rw [hid] at h
      cases rest with
      | nil => cases h
      | cons w rest =>
        simp only [bind, Except.bind, readPositions_name] at h
        cases hname : readText w with
        | error m =>
          rw [hname] at h
          cases h
        | ok name => exact ⟨i, name, rest, by rw [eq_of_readText hname]⟩

end Definition

/-! ### Pairs among octets -/

namespace MessagePack

variable {payload octets rest rest' : List UInt8} {nesting : Nat} {v w : Json}

/-- The octet 0x92 and two data values behind it are a pair. -/
theorem readJsonWithin_pair (hv : readJsonWithin nesting payload = .ok (v, rest))
    (hw : readJsonWithin nesting rest = .ok (w, rest')) :
    readJsonWithin (nesting + 1) (0x92 :: payload) = .ok (.array [v, w], rest') := by
  have htoken : readToken (0x92 :: payload) = .ok (.array 2, payload) := rfl
  rw [readJsonWithin, htoken]
  simp [bind, Except.bind, pure, Except.pure, readItems, hv, hw]

theorem readJson_pair (hv : readJsonWithin (maxNesting - 1) payload = .ok (v, rest))
    (hw : readJsonWithin (maxNesting - 1) rest = .ok (w, rest')) :
    readJson (0x92 :: payload) = .ok (.array [v, w]) := by
  have hpair : readJsonWithin maxNesting (0x92 :: payload) = .ok (.array [v, w], rest') :=
    readJsonWithin_pair hv hw
  rw [readJson, hpair]
  rfl

end MessagePack

/-! ### What a push does -/

/-- The entry of an id has taken a value, and the copies that other entries hold have been exchanged
for it; without an entry that takes the value, nothing has changed. -/
def Registry.Takes (r : Registry) (id : ParamId) (val : Value) (r' : Registry) : Prop :=
  match (r.get? id).bind (·.setValue? val) with
  | none => r' = r
  | some p => p.id = id ∧
    ∀ z, r'.get? z = if z = id then some p else (r.get? z).map (·.replaceDescendant p)

/-- The editor of an id has taken a value, the groups above it have exchanged the copies that they
hold, and nothing else has changed. -/
def EditorTree.Takes (t : EditorTree) (id : ParamId) (val : Value) (t' : EditorTree) : Prop :=
  ∃ e e' above, t.get? id = some e ∧ e.bindValue val = .ok e' ∧ e'.Fits id ∧ t.Climbs id above ∧
    (∃ editors, t' = { t with editors }) ∧
    ∀ z, t'.get? z =
      if z = id then some e'
      else if z ∈ above then (t.get? z).map (patchEditor e'.param)
      else t.get? z

namespace Session

/-- A value has been taken for an id by its entry and by its editor, or by the entry alone if there
is no editor. Nothing else has changed. -/
structure Takes (s : Session) (id : ParamId) (val : Value) (s' : Session) : Prop where
  /-- Only definitions and editors have changed. -/
  eq_with : ∃ registry editors, s' = { s with registry, editors }
  /-- The definitions. -/
  registry : s.registry.Takes id val s'.registry
  /-- The editors. -/
  editors : s.editors.Takes id val s'.editors ∨
    s.editors.get? id = none ∧ s'.editors = s.editors ∧ s.registry.setValue? id val ≠ none

end Session

theorem Registry.IsKeyed.takes {r : Registry} (h : r.IsKeyed) (id : ParamId) (val : Value) :
    r.Takes id val ((r.setValue? id val).getD r) := by
  rw [Registry.Takes, Registry.setValue?]
  cases hp : r.get? id with
  | none => rfl
  | some p =>
    cases hp' : p.setValue? val with
    | none => simp [hp']
    | some p' =>
      have hid : p'.id = id := (Forest.setValue?_eq_some hp').1.trans (h id p hp)
      simp only [Option.bind_some, hp']
      refine ⟨hid, fun z => ?_⟩
      simp only [Option.bind_eq_bind, Option.bind_some, Option.pure_def, hp', Option.getD_some]
      rw [Registry.get?_patchCopies, Registry.get?_insert, hid]
      by_cases hz : z = id
      · simp [hz]
      · simp [hz, Ne.symm hz]

namespace EditorTree

variable {t t' : EditorTree} {id : ParamId} {val : Value} {e : Editor} {l : List ParamId}

/-- Once an editor has been exchanged and taken over into the groups above it. -/
theorem get?_of_syncAncestors_setEditor (h : (t.setEditor id e).syncAncestors id = some t') :
    ∃ above, t.Climbs id above ∧ (∃ editors, t' = { t with editors }) ∧
      ∀ z, t'.get? z =
        if z = id then some e
        else if z ∈ above then (t.get? z).map (patchEditor e.param)
        else t.get? z := by
  have hget : (t.setEditor id e).get? id = some e := by simp
  rw [syncAncestors, hget] at h
  obtain ⟨above, habove, rfl⟩ := Option.map_eq_some_iff.mp h
  have hclimbs := climbs_of_ancestorsWithin_eq habove
  obtain ⟨hid, hnodup⟩ := List.nodup_cons.mp hclimbs.nodup
  refine ⟨above, hclimbs.congr fun _ _ => rfl, ?_, fun z => ?_⟩
  · obtain ⟨editors, heq⟩ := foldl_patch_eq_with e.param above (t.setEditor id e)
    exact ⟨editors, heq⟩
  · rw [get?_foldl_patch hnodup, get?_setEditor]
    by_cases hz : z = id
    · simp [hz, hid]
    · simp [hz, Ne.symm hz]

theorem IsPaintable.takes (h : t.IsPaintable) (hbind : t.bindValue id val = some (.ok t')) :
    t.Takes id val t' := by
  rw [bindValue] at hbind
  split at hbind
  · exact absurd hbind (by simp [pure])
  · next e he =>
    split at hbind
    · exact absurd hbind (by simp [pure])
    · next e' he' =>
      obtain ⟨t'', hsync, heq⟩ := Option.map_eq_some_iff.mp hbind
      obtain rfl := Except.ok.inj heq
      have hfits := h.fits.editor id e he
      obtain ⟨hstored, -⟩ := Editor.bindValue_eq_ok hfits.kind_eq he'
      obtain ⟨above, hclimbs, heq, hget⟩ := get?_of_syncAncestors_setEditor hsync
      exact ⟨e, e', above, he, he', hfits.store hstored, hclimbs, heq, hget⟩

/-- A pushed value is taken or refused, unless the groups above go round. -/
theorem IsAcyclic.exists_bindValue (h : t.IsAcyclic) (id : ParamId) (val : Value) :
    ∃ result, t.bindValue id val = some result := by
  rw [bindValue]
  cases t.get? id with
  | none => exact ⟨_, rfl⟩
  | some e =>
    cases hbind : e.bindValue val with
    | error problem => exact ⟨.error problem, by simp [hbind]⟩
    | ok e' =>
      obtain ⟨above, habove⟩ := h.exists_climbs id
      have hclimbs : (t.setEditor id e').Climbs id above := habove.congr fun _ _ => rfl
      have hget : (t.setEditor id e').get? id = some e' := by simp
      refine ⟨.ok (above.foldl (patch e'.param) (t.setEditor id e')), ?_⟩
      simp [hbind, syncAncestors_eq hget hclimbs]

end EditorTree

namespace Session

variable {s s' start : Session} {id : ParamId} {val : Value} {problems : List Problem}
  {payload : List UInt8} {life : List Turn} {v w : Json} {n : Int64}

/-- A value push is taken, or it is reported and changes nothing. -/
theorem IsOrdered.pushValue (h : s.IsOrdered) (hpush : s.pushValue id val = some (s', problems)) :
    s.Takes id val s' ∧ problems = [] ∨ s' = s ∧ problems ≠ [] := by
  have htakes := h.registry.takes id val
  rcases pushValue_cases hpush with ⟨editors, hbind, rfl, rfl⟩ |
    ⟨registry, hnone, hset, rfl, rfl⟩ | ⟨hne, rfl⟩
  · exact Or.inl ⟨⟨⟨_, _, rfl⟩, htakes, Or.inl (h.editors.takes hbind)⟩, rfl⟩
  · rw [hset, Option.getD_some] at htakes
    exact Or.inl ⟨⟨⟨_, _, rfl⟩, htakes, Or.inr ⟨hnone, rfl, by simp [hset]⟩⟩, rfl⟩
  · exact Or.inr ⟨rfl, hne⟩

/-- A value push comes to an end, unless the groups above its editor go round. -/
theorem exists_pushValue_of_isAcyclic (h : s.editors.IsAcyclic) (id : ParamId) (val : Value) :
    ∃ s' problems, s.pushValue id val = some (s', problems) := by
  obtain ⟨result, hresult⟩ := h.exists_bindValue id val
  exact exists_pushValue_of_bindValue hresult

/-! ### Pairs -/

/-- A pair of an id and a parameter value is a push. -/
theorem ofData_pair (hid : v.toInt64? = some n) (hval : Value.ofJson? w = some val) :
    Inbound.ofData (.array [v, w]) = .push ⟨n⟩ val := by
  simp [Inbound.ofData, Inbound.push?, hid, hval]

/-- A pair of an id and what is neither a parameter value nor a definition is two items that are no
definitions. -/
theorem exists_ofData_pair (hid : v.toInt64? = some n) (hval : Value.ofJson? w = none)
    (hdefinition : ∀ d, Definition.ofJson w ≠ .ok d) :
    ∃ m m', Inbound.ofData (.array [v, w]) = .definitions [] [(v, m), (w, m')] := by
  obtain ⟨m, hm⟩ : ∃ m, Definition.ofJson v = .error m := by
    cases v with
    | integer i =>
      refine ⟨.wrongType (.integer i.val) .definition, ?_⟩
      simp [Definition.ofJson, Definition.mismatch, Found.ofJson]
    | null | bool | real | string | array | object => simp [Json.toInt64?] at hid
  cases hw : Definition.ofJson w with
  | ok d => exact absurd hw (hdefinition d)
  | error m' =>
    have hsorted : Inbound.sortDefinitions [v, w] = ([], [(v, m), (w, m')]) := by
      simp [Inbound.sortDefinitions, hm, hw]
    exact ⟨m, m', by simp [Inbound.ofData, Inbound.push?, hid, hval, hsorted]⟩

/-- Items that are no definitions are reported to a ready session, and change nothing. -/
theorem handleMessage_rejected (hready : s.isReady = true) (rejected : List (Json × Mismatch)) :
    s.handleMessage (.definitions [] rejected) = some (s, s.definitionReports [] rejected) := by
  simp [handleMessage, isAwaiting_of_isReady hready, hready, redefine, reconcileAll,
    Registry.flatten]

/-- What cannot be an object is a definition only as a list that begins with an integer and a
text. -/
theorem ofJson_ne_ok (hw : w.isObject = false)
    (hlist : ∀ i name rest, w = .array (.integer i :: .string name :: rest) →
      ∀ d, Definition.ofJson w ≠ .ok d) (d : Definition) : Definition.ofJson w ≠ .ok d := by
  intro hd
  cases w with
  | object members => simp [Json.isObject] at hw
  | array items =>
    obtain ⟨i, name, rest, rfl⟩ := Definition.exists_of_ofJson_array hd
    exact hlist i name rest rfl d hd
  | null | bool | integer | real | string =>
    simp [Definition.ofJson, Definition.mismatch] at hd

/-- A new session has lived any life and is ready. A data frame comes in that is a pair of an id and
something that is no object, and no definition either, as it might be if it were a list that begins
with an integer and a text. Then the second item is a parameter value and is taken for the id, or
nothing changes and something is reported. The frame is handled, unless groups of the editors go
round. -/
theorem takes_or_stays_of_pair (hstart : start.IsNew) (hlife : start.turns life = some s)
    (hready : s.isReady = true) (hdata : Inbound.record? payload = none)
    (hpair : MessagePack.readJson payload = .ok (.array [v, w])) (hid : v.toInt64? = some n)
    (hw : w.isObject = false)
    (hlist : ∀ i name rest, w = .array (.integer i :: .string name :: rest) →
      ∀ d, Definition.ofJson w ≠ .ok d) :
    (∀ s' problems, s.handleFrame payload = some (s', problems) →
      (∃ val, Value.ofJson? w = some val ∧ s.Takes ⟨n⟩ val s' ∧ problems = []) ∨
      s' = s ∧ problems ≠ []) ∧
    (s.editors.IsAcyclic → ∃ s' problems, s.handleFrame payload = some (s', problems)) := by
  have hconnected : s.state ≠ .disconnected := by
    intro hdis
    simp [isReady, hdis] at hready
  have hframe : s.handleFrame payload = s.handleMessage (Inbound.ofData (.array [v, w])) := by
    simp [handleFrame, hconnected, Inbound.classify, hdata, hpair, Except.map]
  rw [hframe]
  cases hval : Value.ofJson? w with
  | some val =>
    -- The pair is a push.
    have hpush : s.handleMessage (Inbound.ofData (.array [v, w])) = s.pushValue ⟨n⟩ val := by
      rw [ofData_pair hid hval, handleMessage, if_pos hready]
    rw [hpush]
    refine ⟨fun s' problems hpushed => ?_, fun h => exists_pushValue_of_isAcyclic h ⟨n⟩ val⟩
    rcases (isOrdered_of_turns hstart hlife).pushValue hpushed with ⟨htakes, hnil⟩ | hstays
    · exact Or.inl ⟨val, rfl, htakes, hnil⟩
    · exact Or.inr hstays
  | none =>
    -- The pair is two definitions, of which neither can be read.
    obtain ⟨m, m', hitems⟩ := exists_ofData_pair hid hval (ofJson_ne_ok hw hlist)
    rw [hitems, handleMessage_rejected hready]
    refine ⟨fun s' problems hsame => ?_, fun _ => ⟨_, _, rfl⟩⟩
    obtain ⟨rfl, rfl⟩ := Prod.mk.inj (Option.some.inj hsame)
    exact Or.inr ⟨rfl, by simp [definitionReports]⟩

/-- The definitions of a node come in: a group with an integer of the id 2, and a text of the
id 3. -/
def sampleStart : List Turn :=
  [.connect, .incident (.frame sampleListing), .incident (.frame sampleLamp)]

/-- A pair of the id 2 and an integer is taken for the id. -/
theorem takes_sampleStart :
    (new none).IsNew ∧
    Inbound.record? [0x92, 0x02, 0x07] = none ∧
    MessagePack.readJson [0x92, 0x02, 0x07] = .ok (.array [.ofInt64 2, .ofInt64 7]) ∧
    ∃ s s', (new none).turns sampleStart = some s ∧ s.isReady = true ∧
      s.handleFrame [0x92, 0x02, 0x07] = some (s', []) ∧ s.Takes ⟨2⟩ (.int 7) s' := by
  have hdata : Inbound.record? [0x92, 0x02, 0x07] = none := by decide +kernel
  have hpair : MessagePack.readJson [0x92, 0x02, 0x07] =
      .ok (.array [.ofInt64 2, .ofInt64 7]) := by
    apply MessagePack.readJson_pair
    · exact MessagePack.readJsonWithin_integer rfl
    · exact MessagePack.readJsonWithin_integer rfl
  have hrun : ((new none).turns sampleStart).map (fun s =>
      (s.isReady, (s.handleFrame [0x92, 0x02, 0x07]).map (·.2.length))) =
      some (true, some 0) := by decide +kernel
  obtain ⟨s, hlife, hs⟩ := Option.map_eq_some_iff.mp hrun
  obtain ⟨hready, hframe⟩ := Prod.mk.inj hs
  obtain ⟨⟨s', problems⟩, hframe, hlength⟩ := Option.map_eq_some_iff.mp hframe
  obtain rfl := List.length_eq_zero_iff.mp hlength
  have hresult := (takes_or_stays_of_pair (.plain none) hlife hready hdata hpair rfl rfl
    (by simp [Json.ofInt64])).1 s' [] hframe
  rcases hresult with ⟨val, hval, htakes, -⟩ | ⟨-, hne⟩
  · obtain rfl : Value.int 7 = val := Option.some.inj hval
    exact ⟨.plain none, hdata, hpair, s, s', hlife, hready, hframe, htakes⟩
  · exact absurd rfl hne

/-- A pair of the id 3 and a list that begins with the id 2 and a text is no push. Yet the integer
of the id 2 gives way to a placeholder. -/
theorem not_stays_sampleStart :
    Inbound.record? [0x92, 0x03, 0x92, 0x02, 0xa1, 0x78] = none ∧
    MessagePack.readJson [0x92, 0x03, 0x92, 0x02, 0xa1, 0x78] =
      .ok (.array [.ofInt64 3, .array [.ofInt64 2, .string "x"]]) ∧
    Value.ofJson? (.array [.ofInt64 2, .string "x"]) = none ∧
    ∃ s s' problems, (new none).turns sampleStart = some s ∧ s.isReady = true ∧
      s.handleFrame [0x92, 0x03, 0x92, 0x02, 0xa1, 0x78] = some (s', problems) ∧ s' ≠ s ∧
      (s.editors.get? ⟨2⟩).map (·.kind) = some .scalar ∧
      (s'.editors.get? ⟨2⟩).map (·.kind) = some .unresolved := by
  have htoken : MessagePack.readToken [0xa1, 0x78] = .ok (.text [0x78], []) := by
    have hbody : MessagePack.readBody 1 [0x78] = .ok ([0x78], []) := rfl
    simp [MessagePack.readToken, MessagePack.readAfterMarker, hbody, Except.map]
  have htext : MessagePack.textOf [0x78] = .ok "x" := rfl
  have hpair : MessagePack.readJson [0x92, 0x03, 0x92, 0x02, 0xa1, 0x78] =
      .ok (.array [.ofInt64 3, .array [.ofInt64 2, .string "x"]]) := by
    apply MessagePack.readJson_pair
    · exact MessagePack.readJsonWithin_integer rfl
    · apply MessagePack.readJsonWithin_pair
      · exact MessagePack.readJsonWithin_integer rfl
      · exact MessagePack.readJsonWithin_text htoken htext
  have hrun : ((new none).turns sampleStart).map (fun s =>
      (s.isReady, (s.editors.get? ⟨2⟩).map (·.kind),
        (s.handleFrame [0x92, 0x03, 0x92, 0x02, 0xa1, 0x78]).map fun handled =>
          (handled.1.editors.get? ⟨2⟩).map (·.kind))) =
      some (true, some .scalar, some (some .unresolved)) := by decide +kernel
  obtain ⟨s, hlife, hs⟩ := Option.map_eq_some_iff.mp hrun
  simp only [Prod.mk.injEq] at hs
  obtain ⟨hready, hbefore, hframe⟩ := hs
  obtain ⟨⟨s', problems⟩, hframe, hafter⟩ := Option.map_eq_some_iff.mp hframe
  refine ⟨by decide +kernel, hpair, rfl, s, s', problems, hlife, hready, hframe, ?_, hbefore,
    hafter⟩
  rintro rfl
  simp [hbefore] at hafter

end Session

end LiveTuner
