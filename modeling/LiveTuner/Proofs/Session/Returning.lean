import LiveTuner.Proofs.EditorTree.Acyclic
import LiveTuner.Proofs.Session.Agreement

/-!
# Turns that end

The server may send whatever definitions it likes, and the session takes their ids as they come. A
walk up the editor tree that went round would never return, and with it the session would hang. It
cannot go round as long as no id is nested below itself along the definitions that have come in
since the last were loaded, however often these repeat their ids otherwise. One definition in which
an id is nested below itself is enough to hang the session.

## Main definitions

* `Session.heard` — the definitions that have come in since the last were loaded
* `Session.Hears` — something holds of these, all along a life
* `Forest.IsAcyclic` — no id is nested below itself

## Main results

* `Session.exists_turn` — every turn returns, and what has been heard is nested in the editors
* `Session.isAcyclic_of_turns` — so does a life, and no group of the editors is above itself
-/

namespace LiveTuner

open Relation

/-- No id is nested below itself. -/
def Forest.IsAcyclic (f : Forest) : Prop := ∀ id, ¬ TransGen (Under f.nodes) id id

/-- Members have greater ids than their groups. -/
def Forest.IsAscending (f : Forest) : Prop :=
  ∀ q ∈ f.nodes, ∀ m ∈ q.children, q.id.number.toInt < m.id.number.toInt

instance : DecidablePred Forest.IsAscending := fun f => by
  unfold Forest.IsAscending
  infer_instance

theorem Forest.IsAscending.isAcyclic {f : Forest} (h : f.IsAscending) : f.IsAcyclic := by
  have hunder : ∀ {c g}, Under f.nodes c g → g.number.toInt < c.number.toInt := by
    rintro c g ⟨q, hq, rfl, m, hm, rfl⟩
    exact h q hq m hm
  have hbelow : ∀ {c g}, TransGen (Under f.nodes) c g → g.number.toInt < c.number.toInt := by
    intro c g hcg
    induction hcg with
    | single hstep => exact hunder hstep
    | tail _ hstep ih => exact (hunder hstep).trans ih
  exact fun id hid => (hbelow hid).false

theorem Param.nestsBy_under {f : Forest} {p : Param} (h : p ∈ f) : p.NestsBy (Under f.nodes) :=
  fun _ _ hcg => hcg.mono fun _ hq => List.mem_flatMap.mpr ⟨p, h, hq⟩

theorem EditorTree.IsBare.isNested {t : EditorTree} (h : t.IsBare)
    (R : ParamId → ParamId → Prop) : t.IsNested R := by
  refine ⟨fun id e he => ?_, fun id g hg => ?_⟩
  · simp [h.get?_eq] at he
  · simp [EditorTree.parent?, h.parents_eq] at hg

namespace Session

/-- The definitions that have come in since the last were loaded, once a message has been
handled. -/
def hear (s : Session) (seen : Forest) : Inbound → Forest
  | .definitions definitions _ =>
    let params := definitions.map Definition.resolveLeniently
    if s.isAwaiting && s.registry.isEmpty then params
    else if s.isReady then seen ++ params
    else seen
  | _ => seen

/-- The definitions that have come in since the last were loaded, once a turn is over. -/
def heard (s : Session) (seen : Forest) : Turn → Forest
  | .incident (.frame payload) =>
    match Inbound.classify payload with
    | .ok message => s.hear seen message
    | .error _ => seen
  | _ => seen

/-- All along a life, something holds of the definitions that have come in since the last were
loaded. -/
def Hears (P : Forest → Prop) (s : Session) (seen : Forest) : List Turn → Prop
  | [] => True
  | now :: later =>
    P (s.heard seen now) ∧ ∀ s' ∈ s.turn now, s'.Hears P (s.heard seen now) later

instance decidableHears (P : Forest → Prop) [DecidablePred P] :
    (s : Session) → (seen : Forest) → (life : List Turn) → Decidable (s.Hears P seen life)
  | _, _, [] => .isTrue trivial
  | s, seen, now :: later =>
    have : DecidablePred fun s' : Session => s'.Hears P (s.heard seen now) later :=
      fun s' => decidableHears P s' (s.heard seen now) later
    inferInstanceAs (Decidable
      (P (s.heard seen now) ∧ ∀ s' ∈ s.turn now, s'.Hears P (s.heard seen now) later))

variable {R : ParamId → ParamId → Prop} {s s' t : Session} {seen : Forest} {life : List Turn}
  {sent : List Outbound}

theorem Hears.mono {P P' : Forest → Prop} (h : s.Hears P seen life) (hP : ∀ f, P f → P' f) :
    s.Hears P' seen life := by
  induction life generalizing s seen with
  | nil => trivial
  | cons now later ih => exact ⟨hP _ h.1, fun s' hs' => ih (h.2 s' hs')⟩

/-- A selection keeps the editors or drops them. -/
theorem Reselects.isNested (h : s.Reselects t sent) (hnested : s.editors.IsNested R) :
    (t.sendAll sent).editors.IsNested R := by
  rw [sendAll_eq]
  cases h with
  | keeps available advertised => exact hnested
  | selects available advertised node => exact (EditorTree.isBare_clear s.editors).isNested R
  | deselects available advertised => exact (EditorTree.isBare_clear s.editors).isNested R

/-! ### Data -/

section

variable (hR : ∀ id, ¬ TransGen R id id)

include hR

theorem exists_reconcileAll {t : EditorTree} {params : List Param} (h : t.IsNested R)
    (hparams : ∀ p ∈ params, p.NestsBy R) :
    ∃ t' problems, reconcileAll t params = some (t', problems) ∧ t'.IsNested R := by
  induction params generalizing t with
  | nil => exact ⟨t, [], rfl, h⟩
  | cons p rest ih =>
    obtain ⟨hp, hrest⟩ := List.forall_mem_cons.mp hparams
    obtain ⟨result, hreconcile, hresult⟩ := h.reconcile hR hp
    cases result with
    | ok t₁ =>
      obtain ⟨t', problems, hall, ht'⟩ := ih (hresult t₁ rfl) hrest
      exact ⟨t', problems, by simp [reconcileAll, hreconcile, hall], ht'⟩
    | error problem =>
      obtain ⟨t', problems, hall, ht'⟩ := ih h hrest
      exact ⟨t', problem :: problems, by simp [reconcileAll, hreconcile, hall], ht'⟩

theorem exists_pushValue (h : s.editors.IsNested R) (id : ParamId) (val : Value) :
    ∃ s' problems, s.pushValue id val = some (s', problems) ∧ s'.editors.IsNested R := by
  obtain ⟨result, hbind, hresult⟩ := h.bindValue hR id val
  obtain ⟨s', problems, hpush⟩ := exists_pushValue_of_bindValue hbind
  refine ⟨s', problems, hpush, ?_⟩
  rcases pushValue_cases hpush with ⟨editors, htaken, -, rfl⟩ | ⟨registry, -, -, -, rfl⟩ | ⟨-, rfl⟩
  · exact hresult editors (Option.some.inj (hbind.symm.trans htaken))
  · exact h
  · exact h

theorem exists_interact (h : s.editors.IsNested R) (id : ParamId) (interaction : Interaction) :
    ∃ s', s.handle (.interact id interaction) = some s' ∧ s'.editors.IsNested R := by
  obtain ⟨result, hinteract, hresult⟩ := h.interact hR id interaction
  rw [handle, interact]
  split_ifs with hdis
  · exact ⟨s, rfl, h⟩
  · rcases result with problem | ⟨t', _ | val⟩
    · exact ⟨s, by simp [hinteract], h⟩
    · exact ⟨{ s with editors := t' }, by simp [hinteract], hresult t' none rfl⟩
    · refine ⟨_, by simp only [hinteract]; rfl, ?_⟩
      rw [send_eq]
      exact hresult t' (some val) rfl

end

/-- Without a connection nothing is heard. -/
theorem hear_of_disconnected (hdis : s.state = .disconnected) (seen : Forest) (message : Inbound) :
    s.hear seen message = seen := by
  cases message with
  | definitions definitions rejected => simp [hear, isAwaiting, isReady, hdis]
  | nodes | unrecognized | push | other => rfl

/-- Every message is handled if no id is nested below itself along what has been heard then. -/
theorem exists_handleMessage {message : Inbound} (h : s.editors.IsNested (Under seen.nodes))
    (hseen : seen.IsAcyclic) (hconnected : s.state ≠ .disconnected)
    (hhear : (s.hear seen message).IsAcyclic) :
    ∃ s' problems, s.handleMessage message = some (s', problems) ∧
      s'.editors.IsNested (Under (s.hear seen message).nodes) := by
  cases message with
  | nodes names =>
    obtain ⟨t, sent, hreselects, ht⟩ := reselects_updateNodes hconnected names
    exact ⟨_, _, rfl, ht ▸ hreselects.isNested h⟩
  | unrecognized _ => exact ⟨s, _, rfl, h⟩
  | definitions definitions rejected =>
    rw [handleMessage]
    rw [hear] at hhear ⊢
    generalize definitions.map Definition.resolveLeniently = params at hhear ⊢
    split_ifs at hhear ⊢ with hload hready
    · exact ⟨_, _, rfl, EditorTree.isNested_load (fun p hp => Param.nestsBy_under hp) s.editors⟩
    · have hnested : s.editors.IsNested (Under (Forest.nodes (seen ++ params))) :=
        h.mono fun c g hcg => hcg.mono (Forest.nodes_append .. ▸ List.subset_append_left _ _)
      obtain ⟨t', problems, hall, ht'⟩ := exists_reconcileAll hhear hnested fun p hp =>
        Param.nestsBy_under (List.mem_append_right seen hp)
      exact ⟨{ s with registry := s.registry.flatten params, editors := t' }, _,
        by simp only [redefine, hall]; rfl, ht'⟩
    · exact ⟨s, _, rfl, h⟩
  | push id val =>
    rw [handleMessage]
    split_ifs with hready
    · exact exists_pushValue hseen h id val
    · exact ⟨s, _, rfl, h⟩
  | other _ => exact ⟨s, _, rfl, h⟩

/-! ### Any turn -/

/-- Every turn returns if no id is nested below itself along what has been heard by its end. -/
theorem exists_turn {now : Turn} (h : s.editors.IsNested (Under seen.nodes))
    (hseen : seen.IsAcyclic) (hheard : (s.heard seen now).IsAcyclic) :
    ∃ s', s.turn now = some s' ∧ s'.editors.IsNested (Under (s.heard seen now).nodes) := by
  cases now with
  | connect => exact ⟨_, rfl, (EditorTree.isBare_clear s.editors).isNested _⟩
  | disconnect => exact ⟨_, rfl, (EditorTree.isBare_clear s.editors).isNested _⟩
  | incident incident =>
    rw [turn]
    cases incident with
    | frame payload =>
      rw [heard] at hheard ⊢
      rw [handle, handleFrame]
      cases hmessage : Inbound.classify payload with
      | error fault => exact ⟨s, by split_ifs <;> rfl, h⟩
      | ok message =>
        simp only [hmessage] at hheard
        split_ifs with hdis
        · have hnothing := s.hear_of_disconnected hdis seen message
          exact ⟨s, rfl, by simpa only [hnothing] using h⟩
        · obtain ⟨s', problems, hhandled, hs'⟩ := exists_handleMessage h hseen hdis hheard
          exact ⟨s', by simp [hhandled], hs'⟩
    | select node =>
      cases hselect : s.selectNode node with
      | error problem => exact ⟨s, by simp [handle, hselect], h⟩
      | ok result =>
        obtain ⟨s', changed⟩ := result
        obtain ⟨t, sent, hreselects, rfl⟩ := reselects_selectNode hselect
        exact ⟨t.sendAll sent, by simp [handle, hselect], hreselects.isNested h⟩
    | interact id interaction => exact exists_interact hseen h id interaction

theorem exists_turns (h : s.editors.IsNested (Under seen.nodes)) (hseen : seen.IsAcyclic)
    (hlife : s.Hears Forest.IsAcyclic seen life) :
    ∃ s', s.turns life = some s' ∧ s'.editors.IsAcyclic := by
  induction life generalizing s seen with
  | nil => exact ⟨s, rfl, h.isAcyclic hseen⟩
  | cons now later ih =>
    obtain ⟨hheard, hlater⟩ := hlife
    obtain ⟨u, hu, hnested⟩ := exists_turn h hseen hheard
    obtain ⟨s', hs', hacyclic⟩ := ih hnested hheard (hlater u hu)
    refine ⟨s', ?_, hacyclic⟩
    rw [turns, List.foldlM_cons, hu]
    exact hs'

/-- A session without editors lives any life to its end in which no id is nested below itself along
the definitions that have come in since the last were loaded. No group is above itself then, and the
walk up from any id ends. -/
theorem isAcyclic_of_turns (hbare : s.editors.IsBare) (hlife : s.Hears Forest.IsAcyclic [] life) :
    ∃ s', s.turns life = some s' ∧ s'.editors.IsAcyclic ∧
      ∀ id, ∃ d, s'.editors.depth id = some d := by
  have hnil : Forest.IsAscending [] := by decide
  obtain ⟨s', hturns, hacyclic⟩ := exists_turns (hbare.isNested _) hnil.isAcyclic hlife
  exact ⟨s', hturns, hacyclic, hacyclic.exists_depth⟩

/-- The node defines a group of the id 1, with a group of the id 2 and two flags of the id 4, which
is also the id of a flag in the group of the id 2. -/
def sampleRepeats : List UInt8 :=
  [0x91, 0x83, 0xa2, 0x69, 0x64, 0x01, 0xa4, 0x6e, 0x61, 0x6d, 0x65, 0xa1, 0x72, 0xa6, 0x70,
    0x61, 0x72, 0x61, 0x6d, 0x73, 0x83, 0xa1, 0x61, 0x83, 0xa2, 0x69, 0x64, 0x02, 0xa4, 0x6e,
    0x61, 0x6d, 0x65, 0xa1, 0x61, 0xa6, 0x70, 0x61, 0x72, 0x61, 0x6d, 0x73, 0x81, 0xa1, 0x78,
    0x83, 0xa2, 0x69, 0x64, 0x04, 0xa4, 0x6e, 0x61, 0x6d, 0x65, 0xa1, 0x78, 0xa3, 0x76, 0x61,
    0x6c, 0xc3, 0xa1, 0x62, 0x83, 0xa2, 0x69, 0x64, 0x04, 0xa4, 0x6e, 0x61, 0x6d, 0x65, 0xa1,
    0x62, 0xa3, 0x76, 0x61, 0x6c, 0xc3, 0xa1, 0x63, 0x83, 0xa2, 0x69, 0x64, 0x04, 0xa4, 0x6e,
    0x61, 0x6d, 0x65, 0xa1, 0x63, 0xa3, 0x76, 0x61, 0x6c, 0xc2]

/-- The node defines the flag of the id 4 anew. -/
def sampleFlag : List UInt8 :=
  [0x91, 0x83, 0xa2, 0x69, 0x64, 0x04, 0xa4, 0x6e, 0x61, 0x6d, 0x65, 0xa1, 0x78, 0xa3, 0x76,
    0x61, 0x6c, 0xc2]

/-- An id that is repeated is edited, defined anew and pushed. -/
def sampleRepetition : List Turn :=
  [.connect, .incident (.frame sampleListing), .incident (.frame sampleRepeats),
    .incident (.interact ⟨4⟩ .toggle), .incident (.frame sampleFlag),
    .incident (.frame [0x92, 0x04, 0xc3])]

theorem isAcyclic_after_sampleRepetition :
    (new none).editors.IsBare ∧ (new none).Hears Forest.IsAcyclic [] sampleRepetition ∧
    ∃ s, (new none).turns sampleRepetition = some s ∧ s.isReady = true ∧ s.editors.IsAcyclic := by
  have hascending : (new none).Hears Forest.IsAscending [] sampleRepetition := by decide +kernel
  have hacyclic := hascending.mono fun _ h => h.isAcyclic
  obtain ⟨s, hturns, hs, -⟩ := isAcyclic_of_turns (isBlank_new none).isBare hacyclic
  have hready : ((new none).turns sampleRepetition).map isReady = some true := by decide +kernel
  rw [hturns] at hready
  exact ⟨(isBlank_new none).isBare, hacyclic, s, hturns, Option.some.inj hready, hs⟩

/-- The node defines a group of the id 1, with the groups of the ids 2 and 3. In the one there is an
empty group of the id 1, in the other a flag of that id. -/
def sampleLoop : List UInt8 :=
  [0x91, 0x83, 0xa2, 0x69, 0x64, 0x01, 0xa4, 0x6e, 0x61, 0x6d, 0x65, 0xa1, 0x72, 0xa6, 0x70,
    0x61, 0x72, 0x61, 0x6d, 0x73, 0x82, 0xa1, 0x61, 0x83, 0xa2, 0x69, 0x64, 0x02, 0xa4, 0x6e,
    0x61, 0x6d, 0x65, 0xa1, 0x61, 0xa6, 0x70, 0x61, 0x72, 0x61, 0x6d, 0x73, 0x81, 0xa1, 0x78,
    0x83, 0xa2, 0x69, 0x64, 0x01, 0xa4, 0x6e, 0x61, 0x6d, 0x65, 0xa1, 0x78, 0xa6, 0x70, 0x61,
    0x72, 0x61, 0x6d, 0x73, 0x80, 0xa1, 0x62, 0x83, 0xa2, 0x69, 0x64, 0x03, 0xa4, 0x6e, 0x61,
    0x6d, 0x65, 0xa1, 0x62, 0xa6, 0x70, 0x61, 0x72, 0x61, 0x6d, 0x73, 0x81, 0xa1, 0x79, 0x83,
    0xa2, 0x69, 0x64, 0x01, 0xa4, 0x6e, 0x61, 0x6d, 0x65, 0xa1, 0x79, 0xa3, 0x76, 0x61, 0x6c,
    0xc3]

/-- The node defines a flag of the id 1. -/
def sampleKnot : List UInt8 :=
  [0x91, 0x83, 0xa2, 0x69, 0x64, 0x01, 0xa4, 0x6e, 0x61, 0x6d, 0x65, 0xa1, 0x79, 0xa3, 0x76,
    0x61, 0x6c, 0xc2]

/-- Where an id is nested below itself, a group may come to be above itself. Neither an edit of that
id nor a redefinition of it returns then. -/
theorem hangs_after_sampleLoop :
    ∃ s, (new none).turns [.connect, .incident (.frame sampleListing),
        .incident (.frame sampleLoop)] = some s ∧
      ¬ s.editors.IsAcyclic ∧
      s.turn (.incident (.interact ⟨1⟩ .toggle)) = none ∧
      s.turn (.incident (.frame sampleKnot)) = none := by
  have hrun : ((new none).turns [.connect, .incident (.frame sampleListing),
      .incident (.frame sampleLoop)]).map (fun s =>
        (s.editors.parent? ⟨1⟩, s.editors.parent? ⟨3⟩,
          (s.turn (.incident (.interact ⟨1⟩ .toggle))).isNone,
          (s.turn (.incident (.frame sampleKnot))).isNone)) =
      some (some ⟨3⟩, some ⟨1⟩, true, true) := by decide +kernel
  obtain ⟨s, hs, hlinks⟩ := Option.map_eq_some_iff.mp hrun
  simp only [Prod.mk.injEq, Option.isNone_iff_eq_none] at hlinks
  obtain ⟨h1, h3, hinteract, hframe⟩ := hlinks
  exact ⟨s, hs, fun h => h ⟨1⟩ (.tail (.single h1) h3), hinteract, hframe⟩

end Session

end LiveTuner
