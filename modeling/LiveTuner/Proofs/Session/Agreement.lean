import LiveTuner.Proofs.InStep
import LiveTuner.Proofs.Session.Step

/-!
# What the editors show is what the registry knows

A session writes everything that it learns twice, into its registry and into its editors, and the
two never ask each other. Over any life of a session, with any number of connections and nodes, they
nevertheless agree, as long as the definitions that come later keep to the skeletons of the first.

## Main definitions

* `Session.Turn`, `Session.turn`, `Session.turns` — the turns in the life of a session
* `Session.Suits`, `Session.Admits` — definitions suit a session; those of a life do at their time
* `Session.IsAligned` — nothing is loaded, or registry and editors are in step

## Main results

* `Session.IsAligned.turn` — every turn of an admitted life comes to an end, and keeps the alignment
* `Session.agrees_of_turns` — what this says of every editor
-/

namespace LiveTuner

namespace Session

/-- A turn in the life of a session. -/
inductive Turn where
  /-- A connection opens. -/
  | connect
  /-- The connection closes. -/
  | disconnect
  /-- Something happens while a connection lasts, or is tried without one. -/
  | incident (incident : Incident)

/-- The session after a turn. -/
def turn (s : Session) : Turn → Walk Session
  | .connect => some s.onConnected
  | .disconnect => some s.onDisconnected
  | .incident incident => s.handle incident

/-- The session after turns, one after the other. -/
def turns (s : Session) (turns : List Turn) : Walk Session := turns.foldlM turn s

theorem exists_turns_of_cons {s s' : Session} {now : Turn} {later : List Turn}
    (hlife : s.turns (now :: later) = some s') :
    ∃ t, s.turn now = some t ∧ t.turns later = some s' := by
  rw [turns, List.foldlM_cons] at hlife
  exact Option.bind_eq_some_iff.mp hlife

/-- What every turn keeps is kept for life. -/
theorem kept_by_turns {P : Session → Prop} {s s' : Session} {life : List Turn}
    (hkept : ∀ u now v, P u → u.turn now = some v → P v) (h : P s)
    (hlife : s.turns life = some s') : P s' := by
  induction life generalizing s with
  | nil => exact Option.some.inj hlife ▸ h
  | cons now later ih =>
    obtain ⟨u, hu, hlater⟩ := exists_turns_of_cons hlife
    exact ih (hkept s now u h hu) hlater

/-- The definitions that come in a frame. -/
def Turn.params? : Turn → Option (List Param)
  | .incident (.frame payload) =>
    match Inbound.classify payload with
    | .ok (.definitions definitions _) => some (definitions.map Definition.resolveLeniently)
    | _ => none
  | _ => none

/-- Awaited definitions repeat no id. Those that come later are of ids that are known, and differ
from what is known in values and settings only. -/
def Suits (s : Session) (params : List Param) : Prop :=
  (s.isAwaiting = true → (Forest.ids params).Nodup) ∧
    (s.isReady = true → ∀ p ∈ params, s.registry.HasSkeleton p)

/-- All definitions of a life suit the session at their time. -/
def Admits (s : Session) : List Turn → Prop
  | [] => True
  | now :: later =>
    (∀ params ∈ now.params?, s.Suits params) ∧ ∀ s' ∈ s.turn now, s'.Admits later

instance (s : Session) (params : List Param) : Decidable (s.Suits params) := by
  unfold Suits
  infer_instance

instance decidableAdmits : (s : Session) → (life : List Turn) → Decidable (s.Admits life)
  | _, [] => .isTrue trivial
  | s, now :: later =>
    have : DecidablePred fun s' : Session => s'.Admits later := fun s' => decidableAdmits s' later
    inferInstanceAs (Decidable
      ((∀ params ∈ now.params?, s.Suits params) ∧ ∀ s' ∈ s.turn now, s'.Admits later))

/-- Nothing is loaded, or registry and editors are in step. -/
structure IsAligned (s : Session) : Prop where
  /-- Unless the definitions of a node are loaded, nothing is. -/
  isKept : s.IsKept
  /-- Loaded definitions are the same for registry and editors. -/
  inStep : s.isReady = true → InStep s.registry s.editors

variable {s s' t : Session} {id : ParamId} {val : Value} {sent : List Outbound}

/-! ### Selections -/

theorem isAligned_of_isBlank (h : s.IsBlank) (hready : s.isReady = false) : s.IsAligned :=
  ⟨fun _ => h, fun hready' => absurd (hready.symm.trans hready') (by simp)⟩

theorem isBlank_reset (s : Session) : s.reset.IsBlank := ⟨rfl, EditorTree.isBare_clear s.editors⟩

/-- A selection keeps what is loaded, or drops all of it. -/
theorem IsAligned.of_reselects (h : s.IsAligned) (hreselects : s.Reselects t sent) :
    (t.sendAll sent).IsAligned := by
  rw [sendAll_eq]
  cases hreselects with
  | keeps available advertised =>
    refine ⟨fun hready => ?_, h.inStep⟩
    have hblank := h.isKept hready
    exact ⟨hblank.registry_eq, hblank.isBare⟩
  | selects available advertised node =>
    have hblank := s.isBlank_reset
    exact isAligned_of_isBlank ⟨hblank.registry_eq, hblank.isBare⟩ rfl
  | deselects available advertised =>
    have hblank := s.isBlank_reset
    exact isAligned_of_isBlank ⟨hblank.registry_eq, hblank.isBare⟩ rfl

/-! ### Data -/

/-- In step, a session goes on with another registry and other editors that are in step. -/
theorem isAligned_of_inStep {registry : Registry} {editors : EditorTree} {outbox : List Outbound}
    (hready : s.isReady = true) (h : InStep registry editors) :
    ({ s with registry, editors, outbox } : Session).IsAligned :=
  ⟨fun hnot => absurd (hready.symm.trans hnot) (by simp), fun _ => h⟩

theorem isAligned_load {params : List Param} (h : s.IsAligned) (hawaiting : s.isAwaiting = true)
    (hparams : (Forest.ids params).Nodup) : (s.load params).IsAligned := by
  obtain ⟨node, hstate, hstate'⟩ := load_state hawaiting params
  have hready : (s.load params).isReady = true := by simp [isReady, hstate']
  have hblank := h.isKept (by simp [isReady, hstate])
  refine ⟨fun hnot => absurd (hready.symm.trans hnot) (by simp), fun _ => ?_⟩
  have hregistry : (s.load params).registry = Registry.empty.flatten params := by
    rw [← hblank.registry_eq]
    rfl
  rw [hregistry]
  exact InStep.load hparams s.editors

/-- Redefinitions that keep to the skeletons are all taken. -/
theorem reconcileAll_of_inStep {r : Registry} {t : EditorTree} {params : List Param}
    (h : InStep r t) (hparams : ∀ p ∈ params, r.HasSkeleton p) :
    ∃ t', reconcileAll t params = some (t', []) ∧ InStep (r.flatten params) t' := by
  induction params generalizing r t with
  | nil => exact ⟨t, rfl, h⟩
  | cons p rest ih =>
    obtain ⟨t₁, hreconcile, h₁, hkeep⟩ := h.redefine (hparams p List.mem_cons_self)
    obtain ⟨t₂, hrest, h₂⟩ := ih h₁ fun q hq => hkeep q (hparams q (List.mem_cons_of_mem _ hq))
    refine ⟨t₂, ?_, h₂⟩
    simp [reconcileAll, hreconcile, hrest]

theorem isAligned_redefine {params : List Param} (h : s.IsAligned) (hready : s.isReady = true)
    (hparams : ∀ p ∈ params, s.registry.HasSkeleton p) :
    ∃ s' problems, s.redefine params = some (s', problems) ∧ s'.IsAligned := by
  obtain ⟨editors, hreconcile, hstep⟩ := reconcileAll_of_inStep (h.inStep hready) hparams
  refine ⟨{ s with registry := s.registry.flatten params, editors }, [], ?_,
    isAligned_of_inStep hready hstep⟩
  simp [redefine, hreconcile]

theorem isAligned_pushValue (h : s.IsAligned) (hready : s.isReady = true) (id : ParamId)
    (val : Value) : ∃ s' problems, s.pushValue id val = some (s', problems) ∧ s'.IsAligned := by
  have hstep := h.inStep hready
  rw [pushValue]
  split_ifs with hlive
  · rcases hstep.bindValue id val with ⟨problem, hbind⟩ | ⟨t₂, r', hbind, hset, hstep'⟩
    · exact ⟨s, [problem], by simp [hbind], h⟩
    · exact ⟨{ s with editors := t₂, registry := r' }, [], by simp [hbind, hset],
        isAligned_of_inStep hready hstep'⟩
  · -- Without an editor the registry judges the value alone.
    have hdead : s.editors.get? id = none := by
      simpa [EditorTree.contains, EditorTree.get?] using hlive
    cases hget : s.registry.get? id with
    | none => exact ⟨s, _, rfl, h⟩
    | some p =>
      cases hset : s.registry.setValue? id val with
      | none => exact ⟨s, [s.unfit (.push id val)], rfl, h⟩
      | some r' =>
        exact ⟨{ s with registry := r' }, [], rfl,
          isAligned_of_inStep hready (hstep.setValue? hdead hset)⟩

/-- A message is handled, and the session stays aligned if the definitions in it suit. -/
theorem isAligned_handleMessage {message : Inbound} (h : s.IsAligned)
    (hconnected : s.state ≠ .disconnected)
    (hsuits : ∀ definitions rejected, message = .definitions definitions rejected →
      s.Suits (definitions.map Definition.resolveLeniently)) :
    ∃ s' problems, s.handleMessage message = some (s', problems) ∧ s'.IsAligned := by
  cases message with
  | nodes names =>
    obtain ⟨t, sent, hreselects, ht⟩ := reselects_updateNodes hconnected names
    exact ⟨_, _, rfl, ht ▸ h.of_reselects hreselects⟩
  | unrecognized _ => exact ⟨s, _, rfl, h⟩
  | definitions definitions rejected =>
    obtain ⟨hnodup, hkeep⟩ := hsuits definitions rejected rfl
    rw [handleMessage]
    split_ifs with hload hready
    · rw [Bool.and_eq_true] at hload
      exact ⟨_, _, rfl, isAligned_load h hload.1 (hnodup hload.1)⟩
    · obtain ⟨s', problems, hredefine, hs'⟩ := isAligned_redefine h hready (hkeep hready)
      exact ⟨s', s.definitionReports definitions rejected ++ problems, by simp [hredefine], hs'⟩
    · exact ⟨s, _, rfl, h⟩
  | push id val =>
    rw [handleMessage]
    split_ifs with hready
    · exact isAligned_pushValue h hready id val
    · exact ⟨s, _, rfl, h⟩
  | other _ => exact ⟨s, _, rfl, h⟩

/-! ### Any turn -/

theorem isAligned_interact (h : s.IsAligned) (id : ParamId) (interaction : Interaction) :
    ∃ s', s.handle (.interact id interaction) = some s' ∧ s'.IsAligned := by
  have hstay : ∀ {problem}, s.interact id interaction = some (.error problem) →
      ∃ s', s.handle (.interact id interaction) = some s' ∧ s'.IsAligned :=
    fun hrefused => ⟨s, by simp [handle, hrefused], h⟩
  cases hready : s.isReady with
  | false =>
    obtain ⟨problem, hrefused⟩ := interact_of_isBlank (h.isKept hready) interaction
    exact hstay hrefused
  | true =>
    have hconnected := connected_of_isReady hready
    -- The editor refuses, only its panel changes, or both sides take the value.
    rcases (h.inStep hready).interact id interaction with ⟨problem, heq⟩ | ⟨t₂, heq, hstep⟩ |
      ⟨t₂, val, r', heq, hset, hstep⟩
    · have hrefused : s.interact id interaction = some (.error problem) := by
        simp [interact, hconnected, heq]
      exact hstay hrefused
    · exact ⟨{ s with editors := t₂ }, by simp [handle, interact, hconnected, heq],
        isAligned_of_inStep hready hstep⟩
    · refine ⟨({ s with editors := t₂, registry := r' } : Session).send (.update id val), ?_, ?_⟩
      · simp [handle, interact, hconnected, heq, hset]
      · rw [send_eq]
        exact isAligned_of_inStep hready hstep

/-- Every turn comes to an end. If the definitions in it suit, the session stays aligned. -/
theorem IsAligned.turn {now : Turn} (h : s.IsAligned)
    (hsuits : ∀ params, now.params? = some params → s.Suits params) :
    ∃ s', s.turn now = some s' ∧ s'.IsAligned := by
  cases now with
  | connect =>
    have hblank := s.isBlank_reset
    exact ⟨_, rfl, isAligned_of_isBlank ⟨hblank.registry_eq, hblank.isBare⟩ rfl⟩
  | disconnect =>
    have hblank := s.isBlank_reset
    exact ⟨_, rfl, isAligned_of_isBlank ⟨hblank.registry_eq, hblank.isBare⟩ rfl⟩
  | incident incident =>
    rw [Session.turn]
    cases incident with
    | frame payload =>
      rw [handle, handleFrame]
      split_ifs with hdis
      · exact ⟨s, rfl, h⟩
      · cases hmessage : Inbound.classify payload with
        | error fault => exact ⟨s, rfl, h⟩
        | ok message =>
          have hmessage' : ∀ definitions rejected, message = .definitions definitions rejected →
              s.Suits (definitions.map Definition.resolveLeniently) := by
            rintro definitions rejected rfl
            exact hsuits _ (by simp [Turn.params?, hmessage])
          obtain ⟨s', problems, hhandled, hs'⟩ := isAligned_handleMessage h hdis hmessage'
          exact ⟨s', by simp [hhandled], hs'⟩
    | select node =>
      cases hselect : s.selectNode node with
      | error problem => exact ⟨s, by simp [handle, hselect], h⟩
      | ok result =>
        obtain ⟨s', changed⟩ := result
        obtain ⟨t, sent, hreselects, rfl⟩ := reselects_selectNode hselect
        exact ⟨t.sendAll sent, by simp [handle, hselect], h.of_reselects hreselects⟩
    | interact id interaction => exact isAligned_interact h id interaction

/-- Every admitted life can be lived, and ends aligned. -/
theorem IsAligned.turns {life : List Turn} (h : s.IsAligned) (hlife : s.Admits life) :
    ∃ s', s.turns life = some s' ∧ s'.IsAligned := by
  induction life generalizing s with
  | nil => exact ⟨s, rfl, h⟩
  | cons now later ih =>
    obtain ⟨u, hu, hu'⟩ := h.turn hlife.1
    obtain ⟨s', hs', haligned⟩ := ih hu' (hlife.2 u hu)
    refine ⟨s', ?_, haligned⟩
    rw [Session.turns, List.foldlM_cons, hu]
    exact hs'

/-- What the editors show is what the registry knows. A session in which nothing is loaded lives any
admitted life to its end. If it is ready then, every editor that is not a group's has an entry in
the registry of the same name, kind and settings, with the same value. -/
theorem agrees_of_turns (hblank : s.IsBlank) (hready : s.isReady = false) {life : List Turn}
    (hlife : s.Admits life) :
    ∃ s', s.turns life = some s' ∧ (s'.isReady = true →
      ∀ id e, s'.editors.get? id = some e → e.kind ≠ .group →
        ∃ p, s'.registry.get? id = some p ∧ p.name = e.param.name ∧ p.kind = e.kind ∧
          p.settings? = e.param.settings? ∧ p.value = e.param.value) := by
  obtain ⟨s', hturns, haligned⟩ := (isAligned_of_isBlank hblank hready).turns hlife
  refine ⟨s', hturns, fun hready' id e he hkind => ?_⟩
  have hstep := haligned.inStep hready'
  have hkind' := hstep.isFaithful.kind_eq id e he
  rw [hkind'] at hkind ⊢
  obtain ⟨p, hp, hagrees⟩ := hstep.exists_agrees he hkind
  exact ⟨p, hp, hagrees.fields_eq⟩

/-! ### A life -/

/-- The server lists the node a. -/
def sampleListing : List UInt8 :=
  [0x7b, 0x22, 0x61, 0x76, 0x61, 0x69, 0x6c, 0x61, 0x62, 0x6c, 0x65, 0x4e, 0x6f, 0x64, 0x65,
    0x73, 0x22, 0x3a, 0x5b, 0x22, 0x61, 0x22, 0x5d, 0x7d]

/-- The node defines a group of the id 1, with an integer of the id 2 that is at most ten, and a
text of the id 3 that is not shown. -/
def sampleLamp : List UInt8 :=
  [0x91, 0x84, 0xa2, 0x69, 0x64, 0x01, 0xa4, 0x6e, 0x61, 0x6d, 0x65, 0xa4, 0x6c, 0x61, 0x6d,
    0x70, 0xa6, 0x70, 0x61, 0x72, 0x61, 0x6d, 0x73, 0x82, 0xa5, 0x6c, 0x65, 0x76, 0x65, 0x6c,
    0x84, 0xa2, 0x69, 0x64, 0x02, 0xa4, 0x6e, 0x61, 0x6d, 0x65, 0xa5, 0x6c, 0x65, 0x76, 0x65,
    0x6c, 0xa3, 0x76, 0x61, 0x6c, 0x03, 0xa3, 0x6d, 0x61, 0x78, 0x0a, 0xa4, 0x74, 0x69, 0x6e,
    0x74, 0x83, 0xa2, 0x69, 0x64, 0x03, 0xa4, 0x6e, 0x61, 0x6d, 0x65, 0xa4, 0x74, 0x69, 0x6e,
    0x74, 0xa3, 0x76, 0x61, 0x6c, 0xa3, 0x72, 0x65, 0x64, 0xa6, 0x68, 0x69, 0x64, 0x64, 0x65,
    0x6e, 0x91, 0xa4, 0x74, 0x69, 0x6e, 0x74]

/-- The node defines the integer anew, at most twenty. -/
def sampleLevel : List UInt8 :=
  [0x91, 0x84, 0xa2, 0x69, 0x64, 0x02, 0xa4, 0x6e, 0x61, 0x6d, 0x65, 0xa5, 0x6c, 0x65, 0x76,
    0x65, 0x6c, 0xa3, 0x76, 0x61, 0x6c, 0x04, 0xa3, 0x6d, 0x61, 0x78, 0x14]

/-- The integer is edited, the text is pushed, the integer is defined anew, a frame is broken, and
the integer is pushed. -/
def sampleLife : List Turn :=
  [.connect, .incident (.frame sampleListing), .incident (.frame sampleLamp),
    .incident (.interact ⟨2⟩ (.setValue (.int 5))),
    .incident (.frame [0x92, 0x03, 0xa4, 0x62, 0x6c, 0x75, 0x65]),
    .incident (.frame sampleLevel), .incident (.frame [0xc1]),
    .incident (.frame [0x92, 0x02, 0x07])]

theorem isBlank_new (preferred : Option String) : (new preferred).IsBlank := ⟨rfl, rfl, rfl, rfl⟩

theorem agrees_after_sampleLife :
    (new none).IsBlank ∧ (new none).isReady = false ∧ (new none).Admits sampleLife ∧
    ∃ s p, (new none).turns sampleLife = some s ∧ s.isReady = true ∧
      s.registry.get? ⟨2⟩ = some p ∧ p.name = "level" ∧ p.kind = .scalar ∧ p.value = .int 7 := by
  have hlife : (new none).Admits sampleLife := by decide +kernel
  refine ⟨isBlank_new none, rfl, hlife, ?_⟩
  obtain ⟨s, hturns, hagrees⟩ := agrees_of_turns (isBlank_new none) rfl hlife
  have hlevel : ((new none).turns sampleLife).bind (fun s => (s.editors.get? ⟨2⟩).map fun e =>
      (s.isReady, e.kind, e.param.name, e.param.value)) =
      some (true, .scalar, "level", .int 7) := by decide +kernel
  rw [hturns, Option.bind_some] at hlevel
  obtain ⟨e, he, hfields⟩ := Option.map_eq_some_iff.mp hlevel
  simp only [Prod.mk.injEq] at hfields
  obtain ⟨hready, hkind, hname, hvalue⟩ := hfields
  obtain ⟨p, hp, hpname, hpkind, -, hpvalue⟩ := hagrees hready ⟨2⟩ e he (by simp [hkind])
  exact ⟨s, p, hturns, hready, hp, hpname.trans hname, hpkind.trans hkind, hpvalue.trans hvalue⟩

end Session

end LiveTuner
