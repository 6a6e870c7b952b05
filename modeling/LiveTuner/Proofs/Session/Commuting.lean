import LiveTuner.Proofs.EditorTree.Commuting
import LiveTuner.Proofs.Session.Agreement

/-!
# Independent operations

The node pushes a value for one id while the user edits another one. The session cannot know which
of the two was first, and it need not: in either order both meet the same fate, and the registry and
the editors come out the same.

What becomes of an operation is decided by the editor of its id, or by the entry where there is no
editor. Everything else that an operation does follows from this verdict. An operation at another id
changes the verdict in the copies that the editor holds, and in nothing else.

## Main definitions

* `Session.operate` — a pushed value or an interaction, with what comes back
* `Session.Verdict`, `Session.verdict` — what becomes of an operation
* `Session.take` — what a verdict does to a session

## Main results

* `Session.operate_eq` — an operation does what its verdict says
* `Session.verdict_take` — the verdict on an operation behind another one
* `Session.operations_commute` — operations at different ids in either order
-/

namespace LiveTuner

namespace Session

variable {s start : Session} {a b id : ParamId} {op opA opB : Operation} {life : List Turn}
  {above aboveA aboveB : List ParamId}

/-- The session after an operation at an id, with what is reported and the value that is sent to
the node. -/
def operate (s : Session) (id : ParamId) :
    Operation → Walk (Session × List Problem × Option Value)
  | .push val => do
    let (s, problems) ← s.handleMessage (.push id val)
    pure (s, problems, none)
  | .interact interaction => do
    match ← s.interact id interaction with
    | .ok (s, sent?) => pure (s, [], sent?)
    | .error problem => pure (s, [problem], none)

/-! ### Verdicts -/

/-- What becomes of an operation. -/
structure Verdict where
  /-- The change of the editor, if there is one. -/
  write : EditorTree.Write
  /-- The value that goes to the entry, if there is one. -/
  val? : Option Value
  /-- What is reported. -/
  problems : List Problem

namespace Verdict

/-- Nothing changes, and something is reported. -/
def refused (id : ParamId) (problem : Problem) : Verdict := ⟨⟨id, none, []⟩, none, [problem]⟩

/-- The verdict of an editor with the given groups above it. -/
def ofEditor (id : ParamId) (above : List ParamId) :
    Except Problem (Editor × Option Value) → Verdict
  | .ok result => ⟨.ofOperation id above result, result.2, []⟩
  | .error problem => refused id problem

/-- The verdict that comes behind another one. -/
def behind (v w : Verdict) : Verdict := { v with write := v.write.behind w.write }

/-- What comes back: what is reported, and the value if it is the user's. -/
def reply (v : Verdict) : Operation → List Problem × Option Value
  | .push _ => (v.problems, none)
  | .interact _ => (v.problems, v.val?)

end Verdict

/-- The verdict of the registry on an operation at an id without an editor. -/
def verdictOfEntry (s : Session) (id : ParamId) : Operation → Verdict
  | .interact _ => .refused id (.unknownParameter id)
  | .push val =>
    if (s.registry.get? id).isNone then .refused id (.unknownParameter id)
    else if (s.registry.taken? id (some val)).isNone then .refused id (s.unfit (.push id val))
    else ⟨⟨id, none, []⟩, some val, []⟩

/-- The verdict on an operation at an id with the given groups above. -/
def verdict (s : Session) (above : List ParamId) (id : ParamId) (op : Operation) : Verdict :=
  match s.editors.get? id with
  | some e => .ofEditor id above (e.operate op)
  | none => s.verdictOfEntry id op

/-- The session once a verdict has been carried out. -/
def take (s : Session) (id : ParamId) (v : Verdict) : Session :=
  { s with registry := s.registry.store id v.val?, editors := s.editors.write v.write }

theorem verdict_of_eq_some {e : Editor} (he : s.editors.get? id = some e) :
    s.verdict above id op = .ofEditor id above (e.operate op) := by
  rw [verdict, he]

theorem verdict_of_eq_none (he : s.editors.get? id = none) :
    s.verdict above id op = s.verdictOfEntry id op := by
  rw [verdict, he]

theorem write_verdictOfEntry (s : Session) (id : ParamId) (op : Operation) :
    (s.verdictOfEntry id op).write = ⟨id, none, []⟩ := by
  cases op with
  | interact interaction => rfl
  | push val =>
    rw [verdictOfEntry]
    split_ifs
    · rfl
    · rfl
    · rfl

/-- The editor makes the change, or there is none. -/
theorem write_verdict (s : Session) (above : List ParamId) (id : ParamId) (op : Operation) :
    (∃ e result, s.editors.get? id = some e ∧ e.operate op = .ok result ∧
      (s.verdict above id op).write = .ofOperation id above result) ∨
    (s.verdict above id op).write = ⟨id, none, []⟩ := by
  cases he : s.editors.get? id with
  | some e =>
    rw [verdict_of_eq_some he]
    cases hop : e.operate op with
    | ok result => exact Or.inl ⟨e, result, rfl, hop, rfl⟩
    | error problem => exact Or.inr rfl
  | none =>
    rw [verdict_of_eq_none he, write_verdictOfEntry]
    exact Or.inr rfl

theorem id_write_verdict (s : Session) (above : List ParamId) (id : ParamId) (op : Operation) :
    (s.verdict above id op).write.id = id := by
  rcases s.write_verdict above id op with ⟨e, result, -, -, heq⟩ | heq
  · rw [heq]
    rfl
  · rw [heq]

/-! ### Operations do what their verdicts say -/

theorem pushValue_eq_take (habove : s.editors.get? id ≠ none → s.editors.Climbs id above)
    (val : Value) :
    s.pushValue id val = some (s.take id (s.verdict above id (.push val)),
      (s.verdict above id (.push val)).problems) := by
  rw [pushValue, EditorTree.contains_eq_isSome]
  cases he : s.editors.get? id with
  | some e =>
    rw [Option.isSome_some, if_pos rfl, EditorTree.bindValue_eq he (habove (by simp [he])) val,
      verdict_of_eq_some he, Editor.operate]
    cases e.bindValue val with
    | error problem => rfl
    | ok e' => rfl
  | none =>
    rw [Option.isSome_none, if_neg Bool.false_ne_true, verdict_of_eq_none he, verdictOfEntry]
    cases hget : s.registry.get? id with
    | none => rfl
    | some p =>
      rw [Registry.setValue?_eq_map_put]
      cases htaken : s.registry.taken? id (some val) with
      | none => rfl
      | some q =>
        simp [take, Registry.store_eq_put, htaken, EditorTree.write]

/-- An operation comes to an end and does what its verdict says; it may queue a message besides. -/
theorem operate_eq (hready : s.isReady = true)
    (habove : s.editors.get? id ≠ none → s.editors.Climbs id above) (op : Operation) :
    ∃ outbox, s.operate id op =
      some ({ s.take id (s.verdict above id op) with outbox },
        (s.verdict above id op).reply op) := by
  have hconnected := connected_of_isReady hready
  cases op with
  | push val =>
    refine ⟨s.outbox, ?_⟩
    rw [operate, handleMessage, if_pos hready, pushValue_eq_take habove val]
    rfl
  | interact interaction =>
    rw [operate, interact, if_neg hconnected]
    cases he : s.editors.get? id with
    | none =>
      refine ⟨s.outbox, ?_⟩
      rw [EditorTree.interact, he, verdict_of_eq_none he]
      rfl
    | some e =>
      rw [EditorTree.interact_eq he (habove (by simp [he])) interaction, verdict_of_eq_some he]
      cases hop : e.operate (.interact interaction) with
      | error problem => exact ⟨s.outbox, rfl⟩
      | ok result =>
        obtain ⟨e', val?⟩ := result
        cases val? with
        | none => exact ⟨s.outbox, rfl⟩
        | some val =>
          refine ⟨if s.outboxOpen then s.outbox ++ [.update id val] else s.outbox, ?_⟩
          simp only [Option.bind_eq_bind, Option.bind_some, Except.map, send_eq]
          rfl

/-! ### One operation behind another one -/

/-- The groups above an id with an editor are found. -/
theorem exists_above (h : InStep s.registry s.editors) (id : ParamId) :
    ∃ above, s.editors.get? id ≠ none → s.editors.Climbs id above := by
  by_cases hlive : s.editors.get? id = none
  · exact ⟨[], fun hne => absurd hlive hne⟩
  · obtain ⟨above, hclimbs⟩ := h.isFaithful.exists_climbs h.isSound.held hlive
    exact ⟨above, fun _ => hclimbs⟩

theorem isProper_verdict (h : InStep s.registry s.editors)
    (habove : s.editors.get? id ≠ none → s.editors.Climbs id above) (op : Operation) :
    (s.verdict above id op).write.IsProper := by
  rcases s.write_verdict above id op with ⟨e, result, he, hop, heq⟩ | heq
  · rw [heq]
    exact h.isFaithful.isProper_ofOperation he (habove (by simp [he])) hop
  · rw [heq]
    exact ⟨List.nodup_singleton id, fun e he => by cases he⟩

/-- What takes an operation over is a group. -/
theorem kind_eq_group_of_mem_above {e : Editor} (h : InStep s.registry s.editors)
    (haboveA : s.editors.get? a ≠ none → s.editors.Climbs a aboveA)
    (hb : b ∈ (s.verdict aboveA a opA).write.above) (he : s.editors.get? b = some e) :
    e.kind = .group := by
  rcases s.write_verdict aboveA a opA with ⟨eA, result, heA, -, heq⟩ | heq
  · rw [heq] at hb
    have hlive : s.editors.get? a ≠ none := by simp [heA]
    exact h.isFaithful.kind_eq_group_of_mem_climbs h.isSound.held hlive (haboveA hlive)
      (EditorTree.Write.mem_of_mem_above_ofOperation hb) he
  · rw [heq] at hb
    exact absurd hb List.not_mem_nil

/-- One of two ids may be above the other. Then it is a group, and nothing goes up from there. -/
theorem above_write_eq_nil (h : InStep s.registry s.editors)
    (haboveA : s.editors.get? a ≠ none → s.editors.Climbs a aboveA)
    (hb : b ∈ (s.verdict aboveA a opA).write.above) :
    (s.verdict aboveB b opB).write.above = [] := by
  rcases s.write_verdict aboveB b opB with ⟨e, result, he, hop, heq⟩ | heq
  · rw [heq]
    exact h.isFaithful.above_ofOperation_eq_nil he (kind_eq_group_of_mem_above h haboveA hb he) hop
  · rw [heq]

theorem isApart_verdict (h : InStep s.registry s.editors)
    (haboveA : s.editors.get? a ≠ none → s.editors.Climbs a aboveA)
    (haboveB : s.editors.get? b ≠ none → s.editors.Climbs b aboveB) (hne : a ≠ b)
    (opA opB : Operation) :
    (s.verdict aboveA a opA).write.IsApart (s.verdict aboveB b opB).write := by
  refine ⟨?_, fun hb => ?_, fun ha => ?_⟩
  · rwa [id_write_verdict, id_write_verdict]
  · rw [id_write_verdict] at hb
    exact above_write_eq_nil h haboveA hb
  · rw [id_write_verdict] at ha
    exact above_write_eq_nil h haboveB ha

/-- An operation at one id changes the verdict on one at another id only in what is carried to the
editor of that. -/
theorem verdict_take (h : InStep s.registry s.editors)
    (haboveA : s.editors.get? a ≠ none → s.editors.Climbs a aboveA) (hne : a ≠ b)
    (aboveB : List ParamId) (opA opB : Operation) :
    (s.take a (s.verdict aboveA a opA)).verdict aboveB b opB =
      (s.verdict aboveB b opB).behind (s.verdict aboveA a opA) := by
  obtain ⟨f, hm, -⟩ := h.agreesOn
  have hget : (s.take a (s.verdict aboveA a opA)).editors.get? b =
      (s.editors.get? b).map ((s.verdict aboveA a opA).write.carry b) := by
    apply EditorTree.get?_write_of_ne (isProper_verdict h haboveA opA)
    rw [id_write_verdict]
    exact hne.symm
  cases he : s.editors.get? b with
  | none =>
    -- The registry judges as before.
    rw [he, Option.map_none] at hget
    rw [verdict_of_eq_none hget, verdict_of_eq_none he]
    cases opB with
    | interact interaction => rfl
    | push val =>
      have hunknown := hm.get?_store_eq_none_iff hne.symm (s.verdict aboveA a opA).val?
      have htaken := hm.taken?_store hne.symm (s.verdict aboveA a opA).val? (some val)
      simp only [verdictOfEntry, take, htaken, Option.isNone_iff_eq_none, hunknown]
      split_ifs
      · rfl
      · rfl
      · rfl
  | some e =>
    rw [he, Option.map_some] at hget
    rw [verdict_of_eq_some hget, verdict_of_eq_some he, EditorTree.Write.operate_carry fun hb =>
      kind_eq_group_of_mem_above h haboveA hb he]
    cases e.operate opB with
    | error problem => rfl
    | ok result => rfl

/-- Two verdicts are carried out in either order. -/
theorem take_comm (h : InStep s.registry s.editors)
    (haboveA : s.editors.get? a ≠ none → s.editors.Climbs a aboveA)
    (haboveB : s.editors.get? b ≠ none → s.editors.Climbs b aboveB) (hne : a ≠ b)
    (opA opB : Operation) :
    (s.take a (s.verdict aboveA a opA)).take b
        ((s.verdict aboveB b opB).behind (s.verdict aboveA a opA)) =
      (s.take b (s.verdict aboveB b opB)).take a
        ((s.verdict aboveA a opA).behind (s.verdict aboveB b opB)) := by
  obtain ⟨f, hm, -⟩ := h.agreesOn
  have hbound : ∀ z e, s.editors.get? z = some e → e.param.id = z ∧ e.param.ids.Nodup := by
    intro z e he
    obtain ⟨hnode, hid⟩ := h.isFaithful.bound z e he
    exact ⟨hid, Forest.nodup_ids_of_mem_nodes h.isFaithful.nodup_ids hnode⟩
  have hregistry := hm.store_comm hne (s.verdict aboveA a opA).val? (s.verdict aboveB b opB).val?
  have heditors := EditorTree.write_comm hbound (isProper_verdict h haboveA opA)
    (isProper_verdict h haboveB opB) (isApart_verdict h haboveA haboveB hne opA opB)
  simp only [take, Verdict.behind, hregistry, heditors]

/-- Two operations, one after the other, with what comes back from each. -/
theorem exists_operate_operate (h : InStep s.registry s.editors) (hready : s.isReady = true)
    (haboveA : s.editors.get? a ≠ none → s.editors.Climbs a aboveA)
    (haboveB : s.editors.get? b ≠ none → s.editors.Climbs b aboveB) (hne : a ≠ b)
    (opA opB : Operation) :
    ∃ s₁ outbox, s.operate a opA = some (s₁, (s.verdict aboveA a opA).reply opA) ∧
      s₁.operate b opB = some
        ({ (s.take a (s.verdict aboveA a opA)).take b
            ((s.verdict aboveB b opB).behind (s.verdict aboveA a opA)) with outbox },
          (s.verdict aboveB b opB).reply opB) := by
  obtain ⟨outbox₁, h₁⟩ := operate_eq hready haboveA opA
  set s₁ : Session := { s.take a (s.verdict aboveA a opA) with outbox := outbox₁ }
  -- No link has changed, so the groups above the second id are the same.
  have haboveB₁ : s₁.editors.get? b ≠ none → s₁.editors.Climbs b aboveB := by
    intro hlive
    have hlive' : s.editors.get? b ≠ none := by
      intro hnone
      refine hlive ?_
      have hget := EditorTree.get?_write_of_ne (isProper_verdict h haboveA opA) s.editors
        ((id_write_verdict s aboveA a opA).symm ▸ hne.symm)
      exact hget.trans (by rw [hnone, Option.map_none])
    exact (haboveB hlive').congr fun z _ => EditorTree.parent?_write ..
  obtain ⟨outbox₂, h₂⟩ := operate_eq (s := s₁) hready haboveB₁ opB
  have hverdict : s₁.verdict aboveB b opB =
      (s.verdict aboveB b opB).behind (s.verdict aboveA a opA) :=
    verdict_take h haboveA hne aboveB opA opB
  rw [hverdict] at h₂
  refine ⟨s₁, outbox₂, h₁, h₂.trans ?_⟩
  cases opB with
  | push val => rfl
  | interact interaction => rfl

/-- Independent operations commute. A session in which nothing is loaded has lived an admitted life
and is ready. At two different ids, a value is pushed or the user interacts. In either order both
operations come to an end, each gets the same back, and registry and editors come out the same. -/
theorem operations_commute (hblank : start.IsBlank) (hidle : start.isReady = false)
    (hlife : start.Admits life) (hturns : start.turns life = some s) (hready : s.isReady = true)
    (hne : a ≠ b) (opA opB : Operation) :
    ∃ s₁ s₂ t₁ t₂ replyA replyB,
      s.operate a opA = some (s₁, replyA) ∧ s₁.operate b opB = some (t₁, replyB) ∧
      s.operate b opB = some (s₂, replyB) ∧ s₂.operate a opA = some (t₂, replyA) ∧
      t₁.registry = t₂.registry ∧ t₁.editors = t₂.editors := by
  obtain ⟨s', hturns', haligned⟩ := (isAligned_of_isBlank hblank hidle).turns hlife
  obtain rfl := Option.some.inj (hturns.symm.trans hturns')
  have hstep := haligned.inStep hready
  obtain ⟨aboveA, haboveA⟩ := exists_above hstep a
  obtain ⟨aboveB, haboveB⟩ := exists_above hstep b
  obtain ⟨s₁, outbox₁, hA, hAB⟩ :=
    exists_operate_operate hstep hready haboveA haboveB hne opA opB
  obtain ⟨s₂, outbox₂, hB, hBA⟩ :=
    exists_operate_operate hstep hready haboveB haboveA hne.symm opB opA
  have hcomm := take_comm hstep haboveA haboveB hne opA opB
  have hregistry := congrArg registry hcomm
  have heditors := congrArg editors hcomm
  exact ⟨s₁, s₂, _, _, _, _, hA, hAB, hB, hBA, hregistry, heditors⟩

/-- The integer is pushed, and the panel of the group above it is opened. -/
theorem operations_commute_after_sampleLife :
    (new none).IsBlank ∧ (new none).isReady = false ∧ (new none).Admits sampleLife ∧
    ∃ s, (new none).turns sampleLife = some s ∧ s.isReady = true ∧
      ∃ s₁ s₂ t₁ t₂ replyA replyB,
        s.operate ⟨2⟩ (.push (.int 9)) = some (s₁, replyA) ∧
        s₁.operate ⟨1⟩ (.interact .toggle) = some (t₁, replyB) ∧
        s.operate ⟨1⟩ (.interact .toggle) = some (s₂, replyB) ∧
        s₂.operate ⟨2⟩ (.push (.int 9)) = some (t₂, replyA) ∧
        t₁.registry = t₂.registry ∧ t₁.editors = t₂.editors := by
  have hlife : (new none).Admits sampleLife := by decide +kernel
  have hready : ((new none).turns sampleLife).map isReady = some true := by decide +kernel
  obtain ⟨s, hturns, hready⟩ := Option.map_eq_some_iff.mp hready
  exact ⟨isBlank_new none, rfl, hlife, s, hturns, hready,
    operations_commute (isBlank_new none) rfl hlife hturns hready (by decide) _ _⟩

end Session

end LiveTuner
