import LiveTuner.Proofs.Message.Definitions
import LiveTuner.Proofs.Session.Push

/-!
# Frames that change nothing

A frame may be broken, come at the wrong time, be about a parameter that nobody knows, or bring a
value that does not fit. Each of these is found out before anything is written, so the session stays
as it was, with one report. A control record of an unknown kind is passed over without any.

Whether a value fits depends on the parameter only. Its editor and its entry agree about that, each
in its own way.

## Main definitions

* `Value.Fits` — a value fits a parameter
* `Session.Rejects` — a session has no use for a frame, for a reason

## Main results

* `Param.setValue?_eq_none_iff`, `Editor.bindValue_of_not_fits` — what does not fit is refused
* `Session.rejected_frames_change_nothing` — a rejected frame is reported once and changes nothing
-/

namespace LiveTuner

/-! ### Values that fit -/

/-- A value fits a parameter. Nothing fits a group, or what describes no control. -/
inductive Value.Fits : Value → Param → Prop where
  /-- Anything fits a choice. -/
  | choice {id : ParamId} {name : String} {c : Choice} (val : Value) :
    Fits val (.leaf id name (.choice c))
  /-- A number fits a number. -/
  | scalar {id : ParamId} {name : String} {s : Scalar} {val : Value} {x : Binary64}
    (h : val.toReal? = some x) : Fits val (.leaf id name (.scalar s))
  /-- As many numbers fit a sequence. -/
  | vector {id : ParamId} {name : String} {v : ScalarVector} {val : Value} {xs : List Binary64}
    (h : val.toReals? = some xs) (hlength : xs.length = v.val.length) :
    Fits val (.leaf id name (.vector v))
  /-- A truth value fits a truth value. -/
  | flag {id : ParamId} {name : String} {b : Bool} (b' : Bool) :
    Fits (.bool b') (.leaf id name (.flag b))
  /-- A text fits a text. -/
  | text {id : ParamId} {name : String} {s : String} (s' : String) :
    Fits (.text s') (.leaf id name (.text s))

/-- A parameter refuses exactly the values that do not fit. -/
theorem Param.setValue?_eq_none_iff {p : Param} {val : Value} :
    p.setValue? val = none ↔ ¬ val.Fits p := by
  constructor
  · rintro hnone hfits
    cases hfits with
    | choice => cases hnone
    | scalar h => simp [setValue?, Control.setValue?, h] at hnone
    | vector h hlength => simp [setValue?, Control.setValue?, h, hlength] at hnone
    | flag => cases hnone
    | text => cases hnone
  · intro hfits
    by_contra hne
    obtain ⟨q, hq⟩ := Option.ne_none_iff_exists'.mp hne
    apply hfits
    cases p with
    | group i name params hidden => cases hq
    | leaf i name control =>
      obtain ⟨c, hc, -⟩ := Option.map_eq_some_iff.mp hq
      cases control with
      | choice c => exact .choice val
      | scalar s =>
        obtain ⟨x, hx, -⟩ := Option.map_eq_some_iff.mp hc
        exact .scalar hx
      | vector v =>
        rw [Control.setValue?] at hc
        split at hc
        · next xs hxs =>
          split_ifs at hc with hlength
          exact .vector hxs hlength
        · cases hc
      | flag b =>
        cases val with
        | bool b' => exact .flag b'
        | null | int | real | ints | reals | text => cases hc
      | text s =>
        cases val with
        | text s' => exact .text s'
        | null | bool | int | real | ints | reals => cases hc
      | unresolved cause d => cases hc

namespace Editor

variable {e : Editor} {val : Value}

/-- An editor takes every value that fits its parameter. -/
theorem exists_bindValue_of_fits (hkind : e.kind = e.param.kind) (h : val.Fits e.param) :
    ∃ e', e.bindValue val = .ok e' := by
  unfold bindValue
  rw [hkind]
  generalize hp : e.param = p at h
  cases h with
  | choice => exact ⟨e.storeChoice val, rfl⟩
  | @scalar _ _ _ _ x h => exact ⟨e.storeScalar x, by simp [Param.kind, Control.kind, h]⟩
  | @vector _ _ _ _ xs h hlength =>
    refine ⟨e.storeVector xs, ?_⟩
    simp [Param.kind, Control.kind, h, hlength, vectorLength, hp, Param.control?]
  | flag b' => exact ⟨e.storeFlag b', rfl⟩
  | text s' => exact ⟨e.storeText s', rfl⟩

theorem bindValue_eq_ok_or (e : Editor) (val : Value) :
    (∃ e', e.bindValue val = .ok e') ∨ e.bindValue val = e.badPush val := by
  unfold bindValue
  cases e.kind with
  | choice => exact Or.inl ⟨_, rfl⟩
  | scalar =>
    cases val.toReal? with
    | some x => exact Or.inl ⟨_, rfl⟩
    | none => exact Or.inr rfl
  | vector =>
    cases val.toReals? with
    | some xs =>
      dsimp only
      split_ifs
      · exact Or.inl ⟨_, rfl⟩
      · exact Or.inr rfl
    | none => exact Or.inr rfl
  | flag =>
    cases val with
    | bool b => exact Or.inl ⟨_, rfl⟩
    | null | int | real | ints | reals | text => exact Or.inr rfl
  | text =>
    cases val with
    | text s => exact Or.inl ⟨_, rfl⟩
    | null | bool | int | real | ints | reals => exact Or.inr rfl
  | group | unresolved => exact Or.inr rfl

/-- It refuses any other one, with a complaint that names its parameter. -/
theorem bindValue_of_not_fits (hkind : e.kind = e.param.kind) (h : ¬ val.Fits e.param) :
    e.bindValue val = e.badPush val := by
  rcases e.bindValue_eq_ok_or val with ⟨e', hbind⟩ | hbind
  · -- The parameter would have taken the value, too.
    obtain ⟨-, hset⟩ := bindValue_eq_ok hkind hbind
    rw [Param.setValue?_eq_none_iff.mpr h] at hset
    cases hset
  · exact hbind

end Editor

/-! ### Frames -/

namespace Session

variable {s s' start : Session} {payload : List UInt8} {problem : Problem} {problems : List Problem}
  {items : List Json} {id : ParamId} {val : Value} {life : List Turn}

/-- A session has no use for a frame, and says so. -/
inductive Rejects (s : Session) (payload : List UInt8) : Problem → Prop where
  /-- The frame is neither a control record nor data. -/
  | undecodable {fault : MessagePack.Fault} (hrecord : Inbound.record? payload = none)
    (hread : MessagePack.readJson payload = .error fault) :
    Rejects s payload (.undecodable payload fault)
  /-- It carries no sequence. -/
  | other {v : Json} (hv : ∀ items, v ≠ .array items) (hcarries : Inbound.Carries payload v) :
    Rejects s payload (s.unfit (.other v))
  /-- It carries definitions, and no node is selected. -/
  | unselected {items : List Json} (hcarries : Inbound.Carries payload (.array items))
    (hpush : Inbound.push? items = none) (hstate : s.state = .noNode) :
    Rejects s payload (s.unfit (.definitions (Inbound.sortDefinitions items).1))
  /-- It carries a new value before there are definitions. -/
  | early {items : List Json} {id : ParamId} {val : Value}
    (hcarries : Inbound.Carries payload (.array items))
    (hpush : Inbound.push? items = some (id, val)) (hready : s.isReady = false) :
    Rejects s payload (s.unfit (.push id val))
  /-- Nobody knows the parameter. -/
  | unknown {items : List Json} {id : ParamId} {val : Value}
    (hcarries : Inbound.Carries payload (.array items))
    (hpush : Inbound.push? items = some (id, val)) (hready : s.isReady = true)
    (heditor : s.editors.get? id = none) (hentry : s.registry.get? id = none) :
    Rejects s payload (.unknownParameter id)
  /-- The value does not fit the parameter that the editor shows. -/
  | misfit {items : List Json} {id : ParamId} {val : Value} {e : Editor}
    (hcarries : Inbound.Carries payload (.array items))
    (hpush : Inbound.push? items = some (id, val)) (hready : s.isReady = true)
    (heditor : s.editors.get? id = some e) (hfits : ¬ val.Fits e.param) :
    Rejects s payload (.unexpected (.push id val) (.editor e.param.kind e.param.name))
  /-- The parameter has no editor, and the value does not fit its entry. -/
  | misfitEntry {items : List Json} {id : ParamId} {val : Value} {p : Param}
    (hcarries : Inbound.Carries payload (.array items))
    (hpush : Inbound.push? items = some (id, val)) (hready : s.isReady = true)
    (heditor : s.editors.get? id = none) (hentry : s.registry.get? id = some p)
    (hfits : ¬ val.Fits p) : Rejects s payload (s.unfit (.push id val))

theorem handleFrame_of_carries {v : Json} (hconnected : s.state ≠ .disconnected)
    (h : Inbound.Carries payload v) :
    s.handleFrame payload = s.handleMessage (Inbound.ofData v) := by
  rw [handleFrame, if_neg hconnected, h.classify_eq]

theorem handleFrame_of_push (hconnected : s.state ≠ .disconnected)
    (h : Inbound.Carries payload (.array items)) (hpush : Inbound.push? items = some (id, val)) :
    s.handleFrame payload = s.handleMessage (.push id val) := by
  rw [handleFrame_of_carries hconnected h, Inbound.ofData, hpush]

/-! ### Pushes to a ready session -/

theorem pushValue_of_unknown (heditor : s.editors.get? id = none)
    (hentry : s.registry.get? id = none) (val : Value) :
    s.pushValue id val = some (s, [.unknownParameter id]) := by
  rw [pushValue, EditorTree.contains_eq_isSome, heditor, hentry]
  rfl

theorem pushValue_of_misfit {e : Editor} (hfit : e.Fits id) (heditor : s.editors.get? id = some e)
    (hfits : ¬ val.Fits e.param) :
    s.pushValue id val =
      some (s, [.unexpected (.push id val) (.editor e.param.kind e.param.name)]) := by
  have hbind : s.editors.bindValue id val = some (e.badPush val) := by
    simp only [EditorTree.bindValue, heditor, Editor.bindValue_of_not_fits hfit.kind_eq hfits]
    rfl
  rw [pushValue, EditorTree.contains_eq_isSome, heditor, hbind, Editor.badPush, hfit.id_eq]
  rfl

theorem pushValue_of_misfitEntry {p : Param} (heditor : s.editors.get? id = none)
    (hentry : s.registry.get? id = some p) (hfits : ¬ val.Fits p) :
    s.pushValue id val = some (s, [s.unfit (.push id val)]) := by
  have hset : s.registry.setValue? id val = none := by
    rw [Registry.setValue?, hentry]
    simp [Param.setValue?_eq_none_iff.mpr hfits]
  rw [pushValue, EditorTree.contains_eq_isSome, heditor, hentry, hset]
  rfl

/-- A value that is reported fits neither an editor nor, without one, an entry. -/
theorem rejects_of_pushValue (hcarries : Inbound.Carries payload (.array items))
    (hpush : Inbound.push? items = some (id, val)) (hready : s.isReady = true)
    (hordered : s.IsOrdered) (h : s.pushValue id val = some (s', problems))
    (hproblems : problems ≠ []) : ∃ problem, s.Rejects payload problem := by
  rw [pushValue, EditorTree.contains_eq_isSome] at h
  cases heditor : s.editors.get? id with
  | some e =>
    refine ⟨_, .misfit hcarries hpush hready heditor fun hfits => hproblems ?_⟩
    obtain ⟨e', he'⟩ :=
      Editor.exists_bindValue_of_fits (hordered.editors.fits.editor id e heditor).kind_eq hfits
    rw [heditor, Option.isSome_some, if_pos rfl] at h
    obtain ⟨result, hresult, h⟩ := Option.bind_eq_some_iff.mp h
    simp only [EditorTree.bindValue, heditor, he'] at hresult
    obtain ⟨editors, -, rfl⟩ := Option.map_eq_some_iff.mp hresult
    exact (Prod.mk.inj (Option.some.inj h)).2.symm
  | none =>
    cases hentry : s.registry.get? id with
    | none => exact ⟨_, .unknown hcarries hpush hready heditor hentry⟩
    | some p =>
      refine ⟨_, .misfitEntry hcarries hpush hready heditor hentry fun hfits => hproblems ?_⟩
      obtain ⟨q, hq⟩ := Option.ne_none_iff_exists'.mp (mt Param.setValue?_eq_none_iff.mp
        (not_not_intro hfits))
      have hset : s.registry.setValue? id val = some ((s.registry.insert q).patchCopies q) := by
        simp [Registry.setValue?, hentry, hq]
      rw [heditor, hentry, hset] at h
      exact (Prod.mk.inj (Option.some.inj h)).2.symm

/-! ### Any frame -/

theorem handleMessage_of_unselected (hstate : s.state = .noNode) (definitions : List Definition)
    (rejected : List (Json × Mismatch)) :
    s.handleMessage (.definitions definitions rejected) =
      some (s, [s.unfit (.definitions definitions)]) := by
  have hawaiting : s.isAwaiting = false := by simp [isAwaiting, hstate]
  have hready : s.isReady = false := by simp [isReady, hstate]
  rw [handleMessage, hawaiting, hready]
  rfl

/-- A rejected frame is reported once and changes nothing. -/
theorem Rejects.handleFrame_eq (h : s.Rejects payload problem) (hordered : s.IsOrdered)
    (hconnected : s.state ≠ .disconnected) : s.handleFrame payload = some (s, [problem]) := by
  cases h with
  | undecodable hrecord hread =>
    rw [handleFrame, if_neg hconnected, Inbound.classify, hrecord, hread]
    rfl
  | @other v hv hcarries =>
    rw [handleFrame_of_carries hconnected hcarries]
    cases v with
    | array items => exact absurd rfl (hv items)
    | null | bool | integer | real | string | object => rfl
  | unselected hcarries hpush hstate =>
    rw [handleFrame_of_carries hconnected hcarries, Inbound.ofData, hpush]
    exact handleMessage_of_unselected hstate _ _
  | early hcarries hpush hready =>
    rw [handleFrame_of_push hconnected hcarries hpush, handleMessage, hready]
    rfl
  | @unknown _ _ val hcarries hpush hready heditor hentry =>
    rw [handleFrame_of_push hconnected hcarries hpush, handleMessage, hready]
    exact pushValue_of_unknown heditor hentry val
  | misfit hcarries hpush hready heditor hfits =>
    rw [handleFrame_of_push hconnected hcarries hpush, handleMessage, hready]
    exact pushValue_of_misfit (hordered.editors.fits.editor _ _ heditor) heditor hfits
  | misfitEntry hcarries hpush hready heditor hentry hfits =>
    rw [handleFrame_of_push hconnected hcarries hpush, handleMessage, hready]
    exact pushValue_of_misfitEntry heditor hentry hfits

/-- A new session has lived any life and is connected. A frame that it rejects, for whatever reason,
is reported once and changes nothing; every value push that is reported at all is such a frame. A
control record of an unknown kind changes nothing either, and is not reported. -/
theorem rejected_frames_change_nothing (hstart : start.IsNew) (hlife : start.turns life = some s)
    (hconnected : s.state ≠ .disconnected) (payload : List UInt8) :
    (∀ problem, s.Rejects payload problem → s.handleFrame payload = some (s, [problem])) ∧
    (∀ items id val s' problems, Inbound.Carries payload (.array items) →
      Inbound.push? items = some (id, val) → s.handleFrame payload = some (s', problems) →
      problems ≠ [] → ∃ problem, s.Rejects payload problem) ∧
    ∀ members record, Inbound.record? payload = some members →
      Inbound.ofRecord members = .unrecognized record → s.handleFrame payload = some (s, []) := by
  have hordered := isOrdered_of_turns hstart hlife
  refine ⟨fun problem h => h.handleFrame_eq hordered hconnected, ?push, ?record⟩
  case push =>
    intro items id val s' problems hcarries hpush h hproblems
    rw [handleFrame_of_push hconnected hcarries hpush, handleMessage] at h
    cases hready : s.isReady with
    | false => exact ⟨_, .early hcarries hpush hready⟩
    | true =>
      rw [hready, if_pos rfl] at h
      exact rejects_of_pushValue hcarries hpush hready hordered h hproblems
  case record =>
    intro members record hrecord hunrecognized
    rw [handleFrame, if_neg hconnected, Inbound.classify, hrecord]
    dsimp only
    rw [hunrecognized]
    rfl

/-- An integer is pushed for the text that is not shown. -/
theorem rejected_after_sampleLife :
    (new none).IsNew ∧ ∃ s, (new none).turns sampleLife = some s ∧ s.state ≠ .disconnected ∧
      s.Rejects [0x92, 0x03, 0x07] (s.unfit (.push ⟨3⟩ (.int 7))) ∧
      s.handleFrame [0x92, 0x03, 0x07] = some (s, [s.unfit (.push ⟨3⟩ (.int 7))]) := by
  have htext : ((new none).turns sampleLife).map (fun s => (s.isReady,
      (s.editors.get? ⟨3⟩).isNone, (s.registry.get? ⟨3⟩).map Param.kind)) =
      some (true, true, some .text) := by decide +kernel
  obtain ⟨s, hturns, htext⟩ := Option.map_eq_some_iff.mp htext
  simp only [Prod.mk.injEq, Option.isNone_iff_eq_none] at htext
  obtain ⟨hready, heditor, hkind⟩ := htext
  obtain ⟨p, hentry, hkind⟩ := Option.map_eq_some_iff.mp hkind
  have hconnected := connected_of_isReady hready
  have hfits : ¬ (Value.int 7).Fits p := by
    rintro (_ | _ | ⟨hreals, -⟩)
    · cases hkind
    · cases hkind
    · cases hreals
  have hcarries : Inbound.Carries [0x92, 0x03, 0x07] (.array [.ofInt64 3, .ofInt64 7]) := by
    refine ⟨by decide +kernel, ?_⟩
    apply MessagePack.readJson_pair
    · exact MessagePack.readJsonWithin_integer rfl
    · exact MessagePack.readJsonWithin_integer rfl
  have hrejects : s.Rejects [0x92, 0x03, 0x07] (s.unfit (.push ⟨3⟩ (.int 7))) :=
    .misfitEntry hcarries rfl hready heditor hentry hfits
  have hnothing := rejected_frames_change_nothing (.plain none) hturns hconnected
    [0x92, 0x03, 0x07]
  exact ⟨.plain none, s, hturns, hconnected, hrejects, hnothing.1 _ hrejects⟩

end Session

end LiveTuner
