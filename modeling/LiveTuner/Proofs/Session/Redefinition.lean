import LiveTuner.Proofs.Param.Resolution
import LiveTuner.Proofs.Registry.Separation
import LiveTuner.Proofs.Session.Selection

/-!
# Entries of a list that nothing is known of

Definitions that come to a ready session go to two places. The registry takes in the whole list.
After that the editors are told of one entry at a time; an entry of which no editor knows is
reported, and the walk goes on as if the entry were not there. So editors and reports come out as
for the list without it.

The registry has taken it in by then, with everything below it, and nothing takes it out again. What
the entry brings, what it nests and what stands with these in one definition may therefore differ;
everything else has the same definition as for the list without the entry.

## Main results

* `Session.handleMessage_of_unknown` — what an unknown entry of a list changes, and what it does not
* `Session.exists_unknown_entry` — an unknown entry that changes the definition of a known id
-/

namespace LiveTuner

/-- An id that no editor is of or holds is unknown. -/
theorem EditorTree.reconcile_of_nearestHost_eq_none {t : EditorTree} {p : Param}
    (hget : (t.get? p.id).isNone = true) (hhost : t.nearestHost p.id = some none) :
    t.reconcile p = some (.error (.unknownParameter p.id)) := by
  rw [reconcile, Option.isNone_iff_eq_none.mp hget]
  simp only [hhost]
  rfl

namespace Session

variable {s : Session} {t u : EditorTree} {ps qs : List Param} {p : Param}
  {problem : Problem} {early : List Problem}

/-! ### The walk over a list -/

/-- An entry that is reported leaves the editors as they are. -/
theorem reconcileAll_cons_of_error (h : t.reconcile p = some (.error problem)) :
    reconcileAll t (p :: qs) =
      (reconcileAll t qs).map fun (editors, late) => (editors, problem :: late) := by
  rw [reconcileAll, h]
  cases hqs : reconcileAll t qs <;> simp [pure]

theorem reconcileAll_append (h : reconcileAll t ps = some (u, early)) :
    reconcileAll t (ps ++ qs) =
      (reconcileAll u qs).map fun (editors, late) => (editors, early ++ late) := by
  induction ps generalizing t early with
  | nil =>
    obtain ⟨rfl, rfl⟩ := Prod.mk.inj (Option.some.inj h)
    simp
  | cons p rest ih =>
    cases hp : t.reconcile p with
    | none => simp [reconcileAll, hp] at h
    | some result =>
      cases result with
      | ok t' =>
        rw [reconcileAll, hp] at h
        rw [List.cons_append, reconcileAll, hp]
        exact ih h
      | error problem =>
        rw [reconcileAll_cons_of_error hp] at h
        obtain ⟨⟨u', later⟩, hrest, heq⟩ := Option.map_eq_some_iff.mp h
        obtain ⟨rfl, rfl⟩ := Prod.mk.inj heq
        rw [List.cons_append, reconcileAll_cons_of_error hp, ih hrest, Option.map_map]
        rfl

/-- The walk over a list with an entry that is reported is the walk without it. -/
theorem reconcileAll_of_unknown (hps : reconcileAll t ps = some (u, early))
    (hp : u.reconcile p = some (.error problem)) :
    reconcileAll t (ps ++ p :: qs) =
      (reconcileAll u qs).map fun (editors, late) => (editors, early ++ problem :: late) := by
  rw [reconcileAll_append hps, reconcileAll_cons_of_error hp, Option.map_map]
  rfl

/-- A list that comes to a ready session goes to the registry as a whole, then to the editors. -/
theorem handleMessage_definitions (hready : s.isReady = true) (ds : List Definition)
    (rejected : List (Json × Mismatch)) :
    s.handleMessage (.definitions ds rejected) =
      (reconcileAll s.editors (ds.map Definition.resolveLeniently)).map fun (editors, problems) =>
        ({ s with
          registry := s.registry.flatten (ds.map Definition.resolveLeniently), editors },
          s.definitionReports ds rejected ++ problems) := by
  simp only [handleMessage, isAwaiting_of_isReady hready, hready, redefine]
  cases reconcileAll s.editors (ds.map Definition.resolveLeniently) <;> rfl

/-! ### Unknown entries -/

/-- A list with an entry that no editor knows comes to a ready session. The entry is reported.
Editors and other reports come out as for the list without it, and so does every definition that the
entry is not linked with; the registry takes in the whole list. -/
theorem handleMessage_of_unknown {before : List Definition} {d : Definition}
    (after : List Definition) (rejected : List (Json × Mismatch)) (hready : s.isReady = true)
    (hbefore : reconcileAll s.editors (before.map Definition.resolveLeniently) = some (t, early))
    (hunknown : t.reconcile d.resolveLeniently = some (.error (.unknownParameter d.id))) :
    ∃ walk : Walk (EditorTree × List Problem),
      s.handleMessage (.definitions (before ++ d :: after) rejected) =
        walk.map (fun (editors, late) =>
          ({ s with
            registry := s.registry.flatten
              ((before ++ d :: after).map Definition.resolveLeniently), editors },
            s.definitionReports (before ++ d :: after) rejected ++
              (early ++ .unknownParameter d.id :: late))) ∧
      s.handleMessage (.definitions (before ++ after) rejected) =
        walk.map (fun (editors, late) =>
          ({ s with
            registry := s.registry.flatten
              ((before ++ after).map Definition.resolveLeniently), editors },
            s.definitionReports (before ++ after) rejected ++ (early ++ late))) ∧
      ∀ id, ¬ Relation.EqvGen
          (s.registry.Links ((before ++ d :: after).map Definition.resolveLeniently)) d.id id →
        (s.registry.flatten
            ((before ++ d :: after).map Definition.resolveLeniently)).get? id =
          (s.registry.flatten ((before ++ after).map Definition.resolveLeniently)).get? id := by
  refine ⟨reconcileAll t (after.map Definition.resolveLeniently), ?_, ?_, ?_⟩
  · rw [handleMessage_definitions hready, List.map_append, List.map_cons,
      reconcileAll_of_unknown hbefore hunknown, Option.map_map]
    rfl
  · rw [handleMessage_definitions hready, List.map_append, reconcileAll_append hbefore,
      Option.map_map]
    rfl
  · intro id hid
    rw [List.map_append, List.map_cons, ← Definition.id_resolveLeniently] at hid
    rw [List.map_append, List.map_append, List.map_cons]
    exact Registry.get?_flatten_of_not_linked hid

/-- A flag that is set. -/
def sampleOn : Param := .leaf ⟨1⟩ "on" (.flag true)

/-- A node with the flag is selected, and its definitions are loaded. -/
def sampleReady : Session := { new none with state := .awaiting "a" }.load [sampleOn]

/-- A flag that nothing is known of. -/
def sampleStray : Definition := .bare ⟨9⟩ "stray" (.bool true)

/-- The known flag, which is off now. -/
def sampleOff : Definition := .bare ⟨1⟩ "on" (.bool false)

theorem get?_sampleReady {id : ParamId} (h : sampleReady.registry.get? id = some p) :
    id = ⟨1⟩ ∧ p.ids = [⟨1⟩] := by
  have hregistry : sampleReady.registry = Registry.empty.flattenOne sampleOn := rfl
  rw [hregistry] at h
  by_cases hid : id = ⟨1⟩
  · have hflag : (Registry.empty.flattenOne sampleOn).get? ⟨1⟩ = some sampleOn :=
      Registry.get?_flattenOne_of_mem (by decide) (Param.self_mem_nodes sampleOn)
    rw [hid, hflag] at h
    obtain rfl := Option.some.inj h
    exact ⟨hid, rfl⟩
  · have hout : id ∉ sampleOn.ids := fun hmem => hid (List.mem_singleton.mp hmem)
    rw [Registry.get?_flattenOne_of_notMem hout] at h
    simp [Registry.Holds] at h

/-- The stray flag is linked with nothing else. -/
theorem not_linked_sampleStray :
    ¬ Relation.EqvGen (sampleReady.registry.Links
      ([sampleStray, sampleOff].map Definition.resolveLeniently)) ⟨9⟩ ⟨1⟩ := by
  have hsides : ∀ i j, Relation.EqvGen (sampleReady.registry.Links
      ([sampleStray, sampleOff].map Definition.resolveLeniently)) i j → (i = ⟨9⟩ ↔ j = ⟨9⟩) := by
    intro i j h
    induction h with
    | rel i j hlink =>
      rcases hlink with ⟨p, hp, rfl, hj⟩ | ⟨p, hp, hj⟩
      · have hp : p = sampleStray.resolveLeniently ∨ p = sampleOff.resolveLeniently := by
          simpa using hp
        rcases hp with rfl | rfl
        · have hj : j = ⟨9⟩ := List.mem_singleton.mp hj
          exact iff_of_true rfl hj
        · have hj : j = ⟨1⟩ := List.mem_singleton.mp hj
          rw [hj]
          exact Iff.rfl
      · obtain ⟨rfl, hids⟩ := get?_sampleReady hp
        rw [hids, List.mem_singleton] at hj
        rw [hj]
    | refl i => exact Iff.rfl
    | symm i j _ ih => exact ih.symm
    | trans i j k _ _ ih ih' => exact ih.trans ih'
  intro h
  exact absurd ((hsides _ _ h).mp rfl) (by decide)

theorem handleMessage_sampleStray :
    sampleReady.isReady = true ∧
    sampleReady.editors.reconcile sampleStray.resolveLeniently =
      some (.error (.unknownParameter ⟨9⟩)) ∧
    ∃ t t', sampleReady.handleMessage (.definitions [sampleStray, sampleOff] []) =
        some (t, [.unknownParameter ⟨9⟩]) ∧
      sampleReady.handleMessage (.definitions [sampleOff] []) = some (t', []) ∧
      t.editors = t'.editors ∧ t.registry.get? ⟨1⟩ = t'.registry.get? ⟨1⟩ := by
  have hready : sampleReady.isReady = true := rfl
  have hbefore : reconcileAll sampleReady.editors
      (([] : List Definition).map Definition.resolveLeniently) = some (sampleReady.editors, []) :=
    rfl
  have hunknown : sampleReady.editors.reconcile sampleStray.resolveLeniently =
      some (.error (.unknownParameter ⟨9⟩)) :=
    EditorTree.reconcile_of_nearestHost_eq_none (by decide +kernel) (by decide +kernel)
  have hlength : (sampleReady.handleMessage (.definitions [sampleOff] [])).map (·.2.length) =
      some 0 := by decide +kernel
  obtain ⟨walk, hwith, hwithout, hregistry⟩ :=
    handleMessage_of_unknown [sampleOff] [] hready hbefore hunknown
  cases walk with
  | none =>
    rw [List.nil_append] at hwithout
    rw [hwithout] at hlength
    cases hlength
  | some walked =>
    obtain ⟨editors, late⟩ := walked
    have hlate : late = [] := by
      rw [List.nil_append] at hwithout
      rw [hwithout] at hlength
      exact List.length_eq_zero_iff.mp (Option.some.inj hlength)
    rw [hlate] at hwith hwithout
    exact ⟨hready, hunknown, _, _, hwith, hwithout, rfl, hregistry ⟨1⟩ not_linked_sampleStray⟩

/-- A group that nothing is known of, with the known flag in it, which is off now. -/
def sampleGroup : Definition :=
  { Definition.bare ⟨9⟩ "all" .null with params := some [("on", sampleOff)] }

/-- The group is reported as unknown. Yet it has a definition afterwards, and the flag is off where
it would be on without the group. -/
theorem exists_unknown_entry :
    ∃ s t,
      (new none).onConnected.handleAll [.frame sampleNodes, .frame sampleDefinitions] = some s ∧
      s.isReady = true ∧
      s.editors.reconcile sampleGroup.resolveLeniently =
        some (.error (.unknownParameter ⟨9⟩)) ∧
      s.handleMessage (.definitions [] []) = some (s, []) ∧
      s.handleMessage (.definitions [sampleGroup] []) = some (t, [.unknownParameter ⟨9⟩]) ∧
      (s.registry.get? ⟨9⟩).isNone = true ∧ (t.registry.get? ⟨9⟩).isSome = true ∧
      (s.registry.get? ⟨1⟩).map (·.value) = some (.bool true) ∧
      (t.registry.get? ⟨1⟩).map (·.value) = some (.bool false) := by
  have hrun : ((new none).onConnected.handleAll [.frame sampleNodes, .frame sampleDefinitions]).map
      (fun s => (s.isReady, (s.editors.get? ⟨9⟩).isNone, s.editors.nearestHost ⟨9⟩)) =
      some (true, true, some none) := by
    decide +kernel
  have hvalues :
      ((new none).onConnected.handleAll [.frame sampleNodes, .frame sampleDefinitions]).map
        (fun s => ((s.registry.get? ⟨9⟩).isNone, (s.registry.get? ⟨1⟩).map (·.value),
          ((s.registry.flatten [sampleGroup.resolveLeniently]).get? ⟨9⟩).isSome,
          ((s.registry.flatten [sampleGroup.resolveLeniently]).get? ⟨1⟩).map (·.value))) =
      some (true, some (.bool true), true, some (.bool false)) := by
    decide +kernel
  obtain ⟨s, hs, hfacts⟩ := Option.map_eq_some_iff.mp hrun
  rw [hs, Option.map_some] at hvalues
  simp only [Prod.mk.injEq, Option.some.injEq] at hfacts hvalues
  obtain ⟨hready, hget, hhost⟩ := hfacts
  obtain ⟨hnew, hold, hnew', hold'⟩ := hvalues
  have hunknown : s.editors.reconcile sampleGroup.resolveLeniently =
      some (.error (.unknownParameter ⟨9⟩)) :=
    EditorTree.reconcile_of_nearestHost_eq_none hget hhost
  refine ⟨s, { s with registry := s.registry.flatten [sampleGroup.resolveLeniently] }, hs, hready,
    hunknown, ?_, ?_, hnew, hnew', hold, hold'⟩
  · rw [handleMessage_definitions hready]
    rfl
  · rw [handleMessage_definitions hready, List.map_cons, List.map_nil,
      reconcileAll_cons_of_error hunknown]
    rfl

end Session

end LiveTuner
