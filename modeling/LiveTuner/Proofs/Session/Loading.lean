import LiveTuner.Proofs.EditorTree.Settled
import LiveTuner.Proofs.Param.Resolution
import LiveTuner.Proofs.Session.Consistency
import LiveTuner.Proofs.Session.Redefinition
import LiveTuner.Proofs.Session.Rejection

/-!
# Entries of a list that fail

An entry of a list of definitions may fail in two ways. It may be none: then it is reported and left
out. Or it may be one that describes no parameter: then it is reported, and a placeholder takes the
place of the parameter. Neither touches the other entries. A definition that describes none within a
group is a placeholder, too, and is not reported.

So an awaiting session becomes ready by any list, with the parameters of all entries that are
definitions. What it has then does not depend on the others.

## Main definitions

* `Inbound.definition?`, `Inbound.rejected?` — an item that is a definition, and one that is none
* `Editor.Renders` — an editor shows what a definition describes, or why it describes nothing

## Main results

* `Inbound.sortDefinitions_eq` — the items of a list are sorted one by one
* `Session.loads_past_failing_entries` — a list with entries that fail is loaded
-/

namespace LiveTuner

/-! ### Items -/

namespace Inbound

variable {v : Json} {d : Definition} {items : List Json}

/-- The definition that an item is. -/
def definition? (v : Json) : Option Definition := (Definition.ofJson v).toOption

/-- An item that is no definition, with what is wrong. -/
def rejected? (v : Json) : Option (Json × Mismatch) :=
  match Definition.ofJson v with
  | .ok _ => none
  | .error m => some (v, m)

/-- Each item goes to one side, whatever the others are. -/
theorem sortDefinitions_eq (items : List Json) :
    sortDefinitions items = (items.filterMap definition?, items.filterMap rejected?) := by
  induction items with
  | nil => rfl
  | cons v rest ih =>
    rw [sortDefinitions, ih, List.filterMap_cons, List.filterMap_cons, definition?, rejected?]
    cases Definition.ofJson v <;> rfl

/-- The items that are definitions. -/
def definitionsAmong (items : List Json) : List Json := items.filter fun v => (definition? v).isSome

theorem exists_definition_of_mem_definitionsAmong (h : v ∈ definitionsAmong items) :
    ∃ d, Definition.ofJson v = .ok d := by
  have hsome : (definition? v).isSome = true := (List.mem_filter.mp h).2
  rw [definition?] at hsome
  cases hread : Definition.ofJson v with
  | ok d => exact ⟨d, rfl⟩
  | error m => simp [hread, Except.toOption] at hsome

theorem filterMap_definition?_definitionsAmong (items : List Json) :
    (definitionsAmong items).filterMap definition? = items.filterMap definition? := by
  rw [definitionsAmong, List.filterMap_filter]
  refine List.filterMap_congr fun v _ => ?_
  cases definition? v <;> rfl

theorem filterMap_rejected?_definitionsAmong (items : List Json) :
    (definitionsAmong items).filterMap rejected? = [] := by
  rw [List.filterMap_eq_nil_iff]
  intro v hv
  obtain ⟨d, hd⟩ := exists_definition_of_mem_definitionsAmong hv
  rw [rejected?, hd]

/-- A definition is no id. -/
theorem toInt64?_of_ofJson (h : Definition.ofJson v = .ok d) : v.toInt64? = none := by
  cases v with
  | integer n => simp [Definition.ofJson, Definition.mismatch] at h
  | null | bool | real | string | array | object => rfl

/-- Without the other items, a list is no value push. -/
theorem push?_definitionsAmong (items : List Json) : push? (definitionsAmong items) = none := by
  have hall : ∀ v ∈ definitionsAmong items, v.toInt64? = none := by
    intro v hv
    obtain ⟨d, hd⟩ := exists_definition_of_mem_definitionsAmong hv
    exact toInt64?_of_ofJson hd
  -- Only a pair could be a push, and it would begin with an id.
  generalize definitionsAmong items = accepted at hall
  match accepted with
  | [] | [_] | _ :: _ :: _ :: _ => rfl
  | [v, w] =>
    rw [push?, hall v List.mem_cons_self]
    rfl

theorem ofData_of_push?_eq_none (h : push? items = none) :
    ofData (.array items) =
      .definitions (items.filterMap definition?) (items.filterMap rejected?) := by
  rw [ofData, h, sortDefinitions_eq]

/-- Without the other items, a list has the same definitions. -/
theorem ofData_definitionsAmong (items : List Json) :
    ofData (.array (definitionsAmong items)) = .definitions (items.filterMap definition?) [] := by
  rw [ofData_of_push?_eq_none (push?_definitionsAmong items),
    filterMap_definition?_definitionsAmong, filterMap_rejected?_definitionsAmong]

end Inbound

/-! ### Placeholders -/

/-- An editor shows what a definition describes. -/
structure Editor.Renders (e : Editor) (d : Definition) : Prop where
  /-- It is bound to the parameter that the definition describes. -/
  resolved : ∀ p, d.resolve = .ok p → e.param = p
  /-- If there is none, it is a placeholder with the complaint that is reported. -/
  unresolved : ∀ cause, d.resolve = .error cause →
    e.kind = .unresolved ∧ e.view.widget = .placeholder (unresolvableMessage cause d)
  /-- It is painted. -/
  painted : e.rebuild = e

theorem Editor.renders_of_painted {e : Editor} {d : Definition} (hkind : e.kind = e.param.kind)
    (hpainted : e.rebuild = e) (hparam : e.param = d.resolveLeniently) : e.Renders d := by
  rcases d.resolve_cases with hok | ⟨cause, hcause, hleaf⟩
  · refine ⟨fun p hp => ?_, fun cause hcause => ?_, hpainted⟩
    · exact hparam.trans (Except.ok.inj (hok.symm.trans hp))
    · cases hok.symm.trans hcause
  · refine ⟨fun p hp => ?_, fun cause' hcause' => ?_, hpainted⟩
    · cases hcause.symm.trans hp
    · obtain rfl := Except.error.inj (hcause.symm.trans hcause')
      rw [hleaf] at hparam
      have hunresolved : e.kind = .unresolved := by
        rw [hkind, hparam]
        rfl
      refine ⟨hunresolved, ?_⟩
      rw [rebuild_eq_iff.mp hpainted]
      simp only [widget, hunresolved, hparam]
      rfl

namespace Session

variable {s start : Session} {life : List Turn} {payload : List UInt8} {items : List Json}
  {node : String} {ps : List Param} {p : Param}

/-! ### Loading -/

/-- A list that comes to an awaiting session without definitions is loaded. -/
theorem handleMessage_of_awaiting (hstate : s.state = .awaiting node)
    (hregistry : s.registry = .empty) (ds : List Definition) (rejected : List (Json × Mismatch)) :
    s.handleMessage (.definitions ds rejected) =
      some (s.load (ds.map Definition.resolveLeniently), s.definitionReports ds rejected) := by
  have hawaiting : s.isAwaiting = true := by simp [isAwaiting, hstate]
  have hempty : s.registry.isEmpty = true := by
    rw [hregistry]
    rfl
  rw [handleMessage, hawaiting, hempty]
  rfl

/-- A loaded parameter has an editor, which is painted, and an entry. -/
theorem exists_editor_of_load (s : Session) (hregistry : s.registry = .empty)
    (hps : (Forest.ids ps).Nodup) (hp : p ∈ ps) :
    ∃ e, (s.load ps).editors.get? p.id = some e ∧
      (s.load ps).registry.get? p.id = some e.param ∧ e.param = p ∧ e.kind = e.param.kind ∧
      e.rebuild = e := by
  have hsettled : (s.load ps).editors.IsSettled := EditorTree.isSettled_load s.editors hps
  have hf := hsettled.isFaithful
  have hforest : (s.load ps).editors.forest = ps := (EditorTree.isSound_load s.editors hps).2.2
  have hnode := Forest.mem_nodes_of_mem hp
  have hmirrors : (s.load ps).registry.Mirrors ps := by
    rw [load, hregistry]
    exact Registry.mirrors_empty.flatten_append hps
  have hroot : p.id ∈ (s.load ps).editors.roots := by
    rw [hf.roots_eq, hforest]
    exact List.mem_map_of_mem hp
  obtain ⟨e, he⟩ := Option.ne_none_iff_exists'.mp (hf.topmost _ hroot).1
  obtain ⟨henode, hid⟩ := hf.bound _ e he
  rw [hforest] at henode
  obtain rfl : e.param = p := Forest.eq_of_id_eq hps henode hnode hid
  exact ⟨e, he, hmirrors.get?_id hnode, rfl, hf.kind_eq _ e he, hsettled.painted _ e he⟩

/-- A new session has lived any life and awaits the definitions of a node. A list comes in, of which
any items may be no definitions, and any definitions may describe no parameter. The first are
reported, then the second, each in order, and nothing else is. The session is ready, as it would be
by the list of the items that are definitions. If in these no id stands twice, each of them has an
entry, and an editor that shows what it describes or a placeholder. -/
theorem loads_past_failing_entries (hstart : start.IsNew) (hlife : start.turns life = some s)
    (hstate : s.state = .awaiting node) (hcarries : Inbound.Carries payload (.array items))
    (hpush : Inbound.push? items = none) :
    ∃ s',
      s.handleFrame payload = some (s',
        (items.filterMap Inbound.rejected?).map (fun (v, m) => s.unfit (.rejected v m)) ++
          unresolvables (items.filterMap Inbound.definition?)) ∧
      s'.state = .ready node ∧
      s.handleMessage (Inbound.ofData (.array (Inbound.definitionsAmong items))) =
        some (s', unresolvables (items.filterMap Inbound.definition?)) ∧
      ((Forest.ids ((items.filterMap Inbound.definition?).map
          Definition.resolveLeniently)).Nodup →
        ∀ d ∈ items.filterMap Inbound.definition?,
          ∃ e, s'.editors.get? d.id = some e ∧ s'.registry.get? d.id = some e.param ∧
            e.Renders d) := by
  -- While it waits, nothing is loaded, so that the list is loaded and exchanges nothing.
  have hnot : s.isReady = false := by simp [isReady, hstate]
  have hregistry := ((hstart.isConsistent.turns hlife).isKept hnot).registry_eq
  have hconnected : s.state ≠ .disconnected := by simp [hstate]
  refine ⟨s.load ((items.filterMap Inbound.definition?).map Definition.resolveLeniently),
    ?frame, ?state, ?alone, fun hids d hd => ?entry⟩
  case frame =>
    rw [handleFrame_of_carries hconnected hcarries, Inbound.ofData_of_push?_eq_none hpush,
      handleMessage_of_awaiting hstate hregistry]
    rfl
  case state => simp [load, hstate]
  case alone =>
    rw [Inbound.ofData_definitionsAmong, handleMessage_of_awaiting hstate hregistry]
    rfl
  case entry =>
    obtain ⟨e, he, hentry, hparam, hkind, hpainted⟩ :=
      exists_editor_of_load s hregistry hids (List.mem_map_of_mem hd)
    rw [d.id_resolveLeniently] at he hentry
    exact ⟨e, he, hentry, Editor.renders_of_painted hkind hpainted hparam⟩

/-- A number that no control shows. -/
def sampleOdd : Definition := .bare ⟨4⟩ "odd" (.ofInt64 3)

/-- A definition that describes no parameter and one that describes a flag, among items that are no
definitions. -/
def sampleMixture : List Json := [.string "odd", sampleOdd.toJson, .object [], sampleOff.toJson]

theorem loads_sampleMixture :
    (new none).IsNew ∧
    Inbound.Carries (MessagePack.writeJson (.array sampleMixture)) (.array sampleMixture) ∧
    Inbound.push? sampleMixture = none ∧
    ∃ s s', (new none).turns [.connect, .incident (.frame sampleListing)] = some s ∧
      s.state = .awaiting "a" ∧
      s.handleFrame (MessagePack.writeJson (.array sampleMixture)) = some (s',
        [s.unfit (.rejected (.string "odd") (.wrongType (.text "odd") .definition)),
          s.unfit (.rejected (.object []) (.missingField "id")),
          .unresolvable (.noControl (.ofInt64 3)) sampleOdd]) ∧
      s'.state = .ready "a" ∧
      ∀ d ∈ [sampleOdd, sampleOff], ∃ e, s'.editors.get? d.id = some e ∧
        s'.registry.get? d.id = some e.param ∧ e.Renders d := by
  have htext : Definition.ofJson (.string "odd") =
      .error (.wrongType (.text "odd") .definition) := by
    rw [Definition.ofJson.eq_def]
    rfl
  have hempty : Definition.ofJson (.object []) = .error (.missingField "id") := by
    rw [Definition.ofJson, Definition.readFields]
    rfl
  have hodd := Definition.ofJson_toJson sampleOdd rfl
  have hoff := Definition.ofJson_toJson sampleOff rfl
  have hdefinitions : sampleMixture.filterMap Inbound.definition? = [sampleOdd, sampleOff] := by
    simp [sampleMixture, Inbound.definition?, htext, hempty, hodd, hoff, Except.toOption]
  have hrejected : sampleMixture.filterMap Inbound.rejected? =
      [(.string "odd", .wrongType (.text "odd") .definition),
        (.object [], .missingField "id")] := by
    simp [sampleMixture, Inbound.rejected?, htext, hempty, hodd, hoff]
  have hcarries : Inbound.Carries (MessagePack.writeJson (.array sampleMixture))
      (.array sampleMixture) := by
    refine Inbound.carries_array ?_ (by decide +kernel) (by decide +kernel)
    have hkeys : ∀ d ∈ [sampleOdd, sampleOff], d.toJson.WellFormed := by
      intro d hd
      apply d.wellFormed_toJson
      rw [Definition.wellFormed_iff]
      rcases List.mem_pair.mp hd with rfl | rfl
      all_goals simp [sampleOdd, sampleOff, Definition.bare, Json.WellFormed, Json.ofInt64]
    simp [sampleMixture, Json.WellFormed, Json.WellFormedMembers, hkeys]
  have hrun : ((new none).turns [.connect, .incident (.frame sampleListing)]).map (·.state) =
      some (.awaiting "a") := by decide +kernel
  obtain ⟨s, hlife, hstate⟩ := Option.map_eq_some_iff.mp hrun
  obtain ⟨s', hframe, hready, -, hentries⟩ :=
    loads_past_failing_entries (.plain none) hlife hstate hcarries rfl
  rw [hdefinitions] at hframe hentries
  rw [hrejected] at hframe
  exact ⟨.plain none, hcarries, rfl, s, s', hlife, hstate, hframe, hready, hentries (by decide)⟩

end Session

end LiveTuner
