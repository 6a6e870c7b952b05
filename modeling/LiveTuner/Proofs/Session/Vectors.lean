import LiveTuner.Proofs.EditorTree.Lasting
import LiveTuner.Proofs.Param.Vector
import LiveTuner.Proofs.Session.Lasting

/-!
# The vectors of a session

A vector stands in many places of a session: in the registry as an entry and in the copies that
groups hold, and in the editors of all these. Each place is written on its own, by definitions that
come in, by values that are pushed and by edits. All of them leave every vector with bounds for each
of its numbers. The panel of its editor, which is moved number by number and not painted anew, has a
slider for each of them.

## Main definitions

* `Editor.ShowsComponents` — an editor has a slider for each component of a vector
* `Editor.HoldsBounds` — an editor is bound to bounded vectors, and painted if it is one of a vector
* `Session.HasVector` — a vector stands somewhere in a session

## Main results

* `EditorTree.outlasts_holdsBounds` — whatever becomes of an editor keeps it so
* `Session.isBounded_of_turns` — what this says of the vectors in the life of a session
-/

namespace LiveTuner

/-- An editor fits its id and is bound to bounded vectors only. That of a vector shows what painting
it would show. -/
structure Editor.HoldsBounds (e : Editor) (id : ParamId) : Prop where
  /-- It fits its id. -/
  fits : e.Fits id
  /-- Every vector in its definition is bounded. -/
  isBounded : e.param.IsBounded
  /-- The editor of a vector is painted. -/
  painted : e.kind = .vector → e.rebuild = e

/-- The editor shows a panel with one slider for each component of a vector, at its index. -/
def Editor.ShowsComponents (e : Editor) (v : ScalarVector) : Prop :=
  ∃ sliders : List Slider,
    e.view = ⟨none, .accordion e.title e.expanded (sliders.map .slider)⟩ ∧
    sliders.length = v.val.length ∧
    ∀ index : Nat, sliders[index]? = (v.component? index).map Slider.ofScalar

namespace Editor.HoldsBounds

variable {e e' : Editor} {id : ParamId} {p : Param}

/-- The editor of a vector holds no copies; that of a group may exchange them. -/
theorem patchEditor (h : e.HoldsBounds id) (hp : p.IsBounded) :
    (EditorTree.patchEditor p e).HoldsBounds id where
  fits := h.fits.patchEditor p
  isBounded := by
    rw [EditorTree.param_patchEditor]
    exact h.isBounded.replaceDescendant hp
  painted hkind := by
    rw [EditorTree.kind_patchEditor] at hkind
    have hsame : EditorTree.patchEditor p e = e := by
      rw [EditorTree.patchEditor]
      have hparam := h.fits.kind_eq.symm.trans hkind
      cases hleaf : e.param with
      | group => simp [hleaf, Param.kind] at hparam
      | leaf => rfl
    rw [hsame]
    exact h.painted hkind

/-- A stored value is shown as painting shows it. -/
theorem store (h : e.HoldsBounds id) (hstored : e.Stored e') (hbounded : e'.param.IsBounded) :
    e'.HoldsBounds id where
  fits := h.fits.store hstored
  isBounded := hbounded
  painted hkind := by
    rw [hstored.kind_eq] at hkind
    exact hstored.rebuild_eq h.fits.kind_eq (h.painted hkind)

theorem setExpanded (h : e.HoldsBounds id) (hpanel : hasPanel e.kind = true) (expanded : Bool) :
    (e.setExpanded expanded).HoldsBounds id where
  fits := ⟨h.fits.id_eq, h.fits.kind_eq⟩
  isBounded := h.isBounded
  painted hkind := rebuild_setExpanded hpanel (h.painted hkind) expanded

end Editor.HoldsBounds

namespace EditorTree

theorem allows_holdsBounds :
    Allows (fun id e => e.HoldsBounds id) (fun _ _ => True) Param.IsBounded where
  panel _ _ hp hc := ⟨hp.of_mem_nodes (Param.mem_nodes_of_mem_panel hc), trivial⟩
  created _ _ hm := ⟨⟨rfl, rfl⟩, hm, fun _ => rfl⟩
  bound _ _ hm he hkind := ⟨⟨rfl, he.fits.kind_eq.trans hkind⟩, hm, fun _ => rfl⟩

theorem outlasts_holdsBounds : Outlasts (fun id e => e.HoldsBounds id) Param.IsBounded where
  kind_eq _ _ h := h.fits.kind_eq
  patched _ _ _ _ hx h := h.patchEditor hx.isBounded
  stored id e e' h hstored := by
    -- A stored value changes the numbers of a vector, and neither how many they are nor the bounds.
    obtain ⟨i, name, c, c', hp, hp', hc⟩ := hstored.exists_revalued
    have hbounded := h.isBounded
    rw [hp] at hbounded
    exact h.store hstored (hp' ▸ hbounded.revalued hc)
  toggled _ _ expanded h hpanel := h.setExpanded hpanel expanded
  hosted _ _ _ h hp := h.isBounded.replaceDescendant hp

/-- Every editor of the tree holds bounds for its vectors. -/
abbrev HoldsBounds (t : EditorTree) : Prop :=
  t.Satisfies (fun id e => e.HoldsBounds id) fun _ _ => True

end EditorTree

theorem Param.IsResolved.isBounded {p : Param} (h : p.IsResolved) : p.IsBounded := by
  obtain ⟨d, rfl⟩ := h
  exact d.isBounded_resolveLeniently

namespace Session

variable {s start : Session} {life : List Turn} {v : ScalarVector}

theorem lasts_isBounded :
    Lasts (fun r => r.Satisfies fun _ p => p.IsBounded) EditorTree.HoldsBounds where
  empty := Registry.Satisfies.empty _
  flatten r ps hps hr := by
    have hbounded : ∀ p ∈ ps, p.IsBounded := fun p hp => (hps p hp).isBounded
    exact Registry.Satisfies.flatten hr (fun p hp q hq => (hbounded p hp).of_mem_nodes hq)
      fun p hp _ _ hentry => hentry.replaceDescendant (hbounded p hp)
  setValue r r' id val hr hset := by
    refine Registry.Satisfies.setValue? hr (fun p p' hp hp' => ?_) hset
    have hp'' := hp.setValue? hp'
    exact ⟨hp'', fun _ _ hentry => hentry.replaceDescendant hp''⟩
  load t ps hps :=
    EditorTree.Satisfies.load EditorTree.allows_holdsBounds (fun p hp => (hps p hp).isBounded) t
  change t t' c hc ht hchange :=
    ht.change EditorTree.allows_holdsBounds EditorTree.outlasts_holdsBounds
      (fun p hp => (hc p hp).isBounded) hchange

theorem IsNew.holdsBounds (h : start.IsNew) :
    start.Has (fun r => r.Satisfies fun _ p => p.IsBounded) EditorTree.HoldsBounds := by
  cases h with
  | plain | pinned =>
    exact ⟨Registry.Satisfies.empty _, EditorTree.Satisfies.clear .empty⟩

/-- The vector is that of an entry or of the definition that an editor is bound to, or it is in a
copy within one of these. -/
def HasVector (s : Session) (v : ScalarVector) : Prop :=
  (∃ id p, s.registry.get? id = some p ∧ p.HasVector v) ∨
    ∃ id e, s.editors.get? id = some e ∧ e.param.HasVector v

theorem isBounded_of_has (h : s.Has (fun r => r.Satisfies fun _ p => p.IsBounded)
    EditorTree.HoldsBounds) (hv : s.HasVector v) : v.IsBounded := by
  rcases hv with ⟨id, p, hp, hv⟩ | ⟨id, e, he, hv⟩
  · exact h.registry id p hp v hv
  · exact (h.editors.editor id e he).isBounded v hv

end Session

/-- The panel of a painted vector has a slider for each component. -/
theorem Editor.HoldsBounds.showsComponents {e : Editor} {id : ParamId} (h : e.HoldsBounds id)
    (hkind : e.kind = .vector) :
    ∃ name v, e.param = .leaf id name (.vector v) ∧ v.IsBounded ∧ e.ShowsComponents v := by
  have hparam := h.fits.kind_eq.symm.trans hkind
  cases hleaf : e.param with
  | group => simp [hleaf, Param.kind] at hparam
  | leaf i name control =>
    cases control with
    | choice | scalar | flag | text | unresolved =>
      simp [hleaf, Param.kind, Control.kind] at hparam
    | vector v =>
      have hid : i = id := by rw [← h.fits.id_eq, hleaf, Param.id_leaf]
      have hbounded : v.IsBounded := by
        refine h.isBounded v ?_
        rw [hleaf, Param.hasVector_leaf_iff]
      have hview := Editor.rebuild_eq_iff.mp (h.painted hkind)
      refine ⟨name, v, by rw [hid], hbounded, v.components.map Slider.ofScalar, ?_, ?_,
        fun index => ?_⟩
      · rw [hview, Editor.label, Editor.widget, hkind, hleaf]
        simp [Editor.hasPanel, Param.control?, Editor.vectorPanel]
      · rw [List.length_map, ScalarVector.length_components hbounded]
      · rw [List.getElem?_map, ScalarVector.getElem?_components hbounded]

namespace Session

variable {s start : Session} {life : List Turn}

/-- Every vector has bounds for each of its numbers. A new session lives any life: connections open
and close, any frames come in, and the user selects and edits. Each vector of it, in the registry
or in an editor and however deep in copies, has as many lower and as many upper bounds as numbers,
and a component exactly at the index of each number. So no bound is missing for a list of numbers
that is as long. The editor of a vector is bound to one, and shows a panel with one slider for each
component, at its index; it takes numbers from the user exactly if they are as many and each of
them is within the bounds at its index. -/
theorem isBounded_of_turns (hstart : start.IsNew) (hlife : start.turns life = some s) :
    (∀ v, s.HasVector v →
      v.min.length = v.val.length ∧ v.max.length = v.val.length ∧
      (∀ index, (v.component? index).isSome ↔ index < v.val.length) ∧
      ∀ xs : List Binary64, xs.length = v.val.length → ∀ index < xs.length,
        ∃ lo hi, v.min[index]? = some lo ∧ v.max[index]? = some hi) ∧
    ∀ id e, s.editors.get? id = some e → e.kind = .vector →
      ∃ name v, e.param = .leaf id name (.vector v) ∧ e.ShowsComponents v ∧ ∀ xs,
        (∃ result, e.tryVector v xs = .ok result) ↔
          xs.length = v.val.length ∧ AreWithin xs v.min v.max := by
  have hbounds := lasts_isBounded.turns hstart.holdsBounds hlife
  refine ⟨fun v hv => ?_, fun id e he hkind => ?_⟩
  · have hbounded := isBounded_of_has hbounds hv
    refine ⟨hbounded.length_min, hbounded.length_max,
      ScalarVector.component?_isSome_iff hbounded, fun xs hlength index hindex => ?_⟩
    have hmin : index < v.min.length := by rwa [hbounded.length_min, ← hlength]
    have hmax : index < v.max.length := by rwa [hbounded.length_max, ← hlength]
    exact ⟨_, _, List.getElem?_eq_getElem hmin, List.getElem?_eq_getElem hmax⟩
  · obtain ⟨name, v, hparam, hbounded, hshows⟩ :=
      (hbounds.editors.editor id e he).showsComponents hkind
    exact ⟨name, v, hparam, hshows, fun xs => Editor.exists_tryVector_eq_ok_iff hbounded e⟩

/-- The node defines a group of the id 1 with three numbers of the id 2 in it, all at most ten. -/
def sampleTint : List UInt8 :=
  [0x91, 0x83, 0xa2, 0x69, 0x64, 0x01, 0xa4, 0x6e, 0x61, 0x6d, 0x65, 0xa4, 0x6c, 0x61, 0x6d, 0x70,
    0xa6, 0x70, 0x61, 0x72, 0x61, 0x6d, 0x73, 0x81, 0xa4, 0x74, 0x69, 0x6e, 0x74, 0x84, 0xa2, 0x69,
    0x64, 0x02, 0xa4, 0x6e, 0x61, 0x6d, 0x65, 0xa4, 0x74, 0x69, 0x6e, 0x74, 0xa3, 0x76, 0x61, 0x6c,
    0x93, 0x01, 0x02, 0x03, 0xa3, 0x6d, 0x61, 0x78, 0x0a]

/-- The node defines the numbers anew: two, at most nine and eight. -/
def sampleShorter : List UInt8 :=
  [0x91, 0x84, 0xa2, 0x69, 0x64, 0x02, 0xa4, 0x6e, 0x61, 0x6d, 0x65, 0xa4, 0x74, 0x69, 0x6e, 0x74,
    0xa3, 0x76, 0x61, 0x6c, 0x92, 0x04, 0x05, 0xa3, 0x6d, 0x61, 0x78, 0x92, 0x09, 0x08]

/-- A number is edited, the panel is opened, the numbers are defined anew, and two are pushed. -/
def sampleShortening : List Turn :=
  [.connect, .incident (.frame sampleListing), .incident (.frame sampleTint),
    .incident (.interact ⟨2⟩ (.setComponent 1 (.ofInt 5))),
    .incident (.interact ⟨2⟩ .toggle), .incident (.frame sampleShorter),
    .incident (.frame [0x92, 0x02, 0x92, 0x06, 0x07])]

theorem isBounded_after_sampleShortening :
    (new none).IsNew ∧ ∃ s e name v, (new none).turns sampleShortening = some s ∧
      s.editors.get? ⟨2⟩ = some e ∧ e.param = .leaf ⟨2⟩ name (.vector v) ∧
      v.value = .ints [6, 7] ∧ v.min.length = v.val.length ∧ e.ShowsComponents v := by
  have hrun : ((new none).turns sampleShortening).bind (fun s => (s.editors.get? ⟨2⟩).map fun e =>
      (e.kind, e.param.value)) = some (.vector, .ints [6, 7]) := by decide +kernel
  obtain ⟨s, hlife, hs⟩ := Option.bind_eq_some_iff.mp hrun
  obtain ⟨e, he, hfields⟩ := Option.map_eq_some_iff.mp hs
  obtain ⟨hkind, hvalue⟩ := Prod.mk.inj hfields
  obtain ⟨hbounded, heditors⟩ := isBounded_of_turns (.plain none) hlife
  obtain ⟨name, v, hparam, hshows, -⟩ := heditors ⟨2⟩ e he hkind
  have hv : s.HasVector v := by
    refine Or.inr ⟨⟨2⟩, e, he, ?_⟩
    rw [hparam, Param.hasVector_leaf_iff]
  rw [hparam] at hvalue
  exact ⟨.plain none, s, e, name, v, hlife, he, hparam, hvalue, (hbounded v hv).1, hshows⟩

end Session

end LiveTuner
