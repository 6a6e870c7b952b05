import LiveTuner.Proofs.Editor.Edit
import LiveTuner.Proofs.EditorTree.Sound
import LiveTuner.Proofs.Param.Skeleton
import LiveTuner.Proofs.Registry.Commuting

/-!
# Changes of different editors

A value that comes to an editor is taken over into the groups above it, so what two editors take may
have to be written into one and the same group. One of the two may even be a group above the other,
whose panel is opened or closed.

A change is described by the editor that it makes and by the groups that take its definition over. A
change that comes behind another one makes the editor that it would have made, with the copies that
the first one has exchanged in it. Described like this, two changes lead to the same tree in either
order.

## Main definitions

* `Operation`, `Editor.operate` — a pushed value or an interaction, and what an editor makes of it
* `EditorTree.Write`, `EditorTree.write` — a change of one editor, with the groups above it
* `EditorTree.Write.behind` — the change that comes behind another one

## Main results

* `Editor.operate_patchEditor` — what a group makes of an operation does not depend on its copies
* `EditorTree.bindValue_eq`, `EditorTree.interact_eq` — operations as changes
* `EditorTree.write_comm` — two changes lead to the same tree in either order
-/

namespace LiveTuner

open Relation

/-- What can be done at an id. -/
inductive Operation where
  /-- The node pushes a value. -/
  | push (val : Value)
  /-- The user interacts with the editor. -/
  | interact (interaction : Interaction)

/-- The editor after an operation, with the value that goes to the groups above and to the
registry. -/
def Editor.operate (e : Editor) : Operation → Except Problem (Editor × Option Value)
  | .push val => (e.bindValue val).map (·, some val)
  | .interact interaction => e.interact interaction

theorem Param.name_replaceDescendant (p q : Param) : (q.replaceDescendant p).name = q.name := by
  cases q with
  | leaf i name control => rfl
  | group i name params hidden =>
    rw [replaceDescendant, replaceDescendant?]
    cases replaceAmong? params p with
    | none => rfl
    | some params' => rfl

namespace Editor

variable {e e' : Editor} {op : Operation} {val? : Option Value} {val : Value}

/-- An operation that gives a value stores one; any other leaves the definition as it is. -/
theorem stored_or_of_operate (hkind : e.kind = e.param.kind) (h : e.operate op = .ok (e', val?)) :
    Stored e e' ∨ val? = none ∧ e'.param = e.param := by
  cases op with
  | push val =>
    rw [operate] at h
    cases hbind : e.bindValue val with
    | error problem =>
      rw [hbind] at h
      cases h
    | ok e₁ =>
      rw [hbind] at h
      obtain ⟨rfl, -⟩ := Prod.mk.inj (Except.ok.inj h)
      exact Or.inl (bindValue_eq_ok hkind hbind).1
  | interact interaction =>
    cases interact_eq_ok hkind h with
    | toggled hpanel => exact Or.inr ⟨rfl, rfl⟩
    | stored hstored => exact Or.inl hstored

/-- An operation leaves the id, and only what has nothing below it gives a value. -/
theorem param_of_operate (hkind : e.kind = e.param.kind) (h : e.operate op = .ok (e', val?)) :
    e'.param.id = e.param.id ∧ (val? ≠ none → e'.param.children = []) := by
  rcases stored_or_of_operate hkind h with hstored | ⟨hnone, hparam⟩
  · obtain ⟨i, name, c, c', hp, hp', -⟩ := hstored.exists_leaf
    rw [hp, hp']
    exact ⟨rfl, fun _ => rfl⟩
  · rw [hparam]
    exact ⟨rfl, fun hsome => absurd hnone hsome⟩

/-- A group gives no value. -/
theorem eq_none_of_operate_group (hkind : e.kind = e.param.kind) (hgroup : e.kind = .group)
    (h : e.operate op = .ok (e', val?)) : val? = none := by
  rcases stored_or_of_operate hkind h with hstored | ⟨hnone, -⟩
  · obtain ⟨i, name, c, c', hp, -, -⟩ := hstored.exists_leaf
    rw [hkind, hp] at hgroup
    exact absurd hgroup c.kind_ne_group
  · exact hnone

end Editor

namespace EditorTree

variable {t t' : EditorTree} {a b id z : ParamId} {e e' : Editor} {p q : Param}
  {l l' : List ParamId} {op op' : Operation}

theorem patchEditor_eq (p : Param) (e : Editor) :
    patchEditor p e = e.bind (e.param.replaceDescendant p) := by
  rw [patchEditor, Param.replaceDescendant]
  cases e.param.replaceDescendant? p with
  | none => rfl
  | some bound => rfl

/-- What a group makes of an operation does not depend on the copies that it holds. -/
theorem operate_patchEditor (hkind : e.kind = .group) (p : Param) (op : Operation) :
    (patchEditor p e).operate op = (e.operate op).map fun r => (patchEditor p r.1, r.2) := by
  cases op with
  | push val =>
    simp [Editor.operate, Editor.bindValue, hkind, Editor.badPush, param_patchEditor,
      kind_replaceDescendant, Param.name_replaceDescendant, Except.map]
  | interact interaction =>
    simp only [Editor.operate, Editor.interact, kind_patchEditor, hkind]
    cases interaction with
    | toggle =>
      simp only [Editor.interactGroup, patchEditor_eq]
      rfl
    | pick | setValue | setComponent =>
      simp [Editor.interactGroup, Editor.refuse, param_patchEditor, Except.map]

theorem patchEditor_comm (h : e.param.ids.Nodup) (hp : e.param.id ≠ p.id)
    (hq : e.param.id ≠ q.id) (hpleaf : p.children = []) (hqleaf : q.children = [])
    (hne : p.id ≠ q.id) : patchEditor q (patchEditor p e) = patchEditor p (patchEditor q e) := by
  have hcomm := Param.replaceDescendant_comm h hp hq hpleaf hqleaf hne
  simp only [patchEditor_eq, Editor.bind, hcomm]

/-! ### Changes -/

/-- A change of the editor of an id. -/
structure Write where
  /-- The id. -/
  id : ParamId
  /-- The editor afterwards; none if there is none to change. -/
  editor? : Option Editor
  /-- The groups that take its definition over. -/
  above : List ParamId

/-- The tree after a change. -/
def write (t : EditorTree) (w : Write) : EditorTree :=
  match w.editor? with
  | some e => w.above.foldl (patch e.param) (t.setEditor w.id e)
  | none => t

namespace Write

variable {w w' : Write}

/-- The change that an operation on an editor comes to, with the groups above the editor. -/
def ofOperation (id : ParamId) (above : List ParamId) (result : Editor × Option Value) : Write :=
  ⟨id, some result.1, if result.2.isSome then above else []⟩

theorem mem_of_mem_above_ofOperation {result : Editor × Option Value}
    (h : z ∈ (ofOperation id l result).above) : z ∈ l := by
  rw [ofOperation] at h
  split_ifs at h
  · exact h
  · exact absurd h List.not_mem_nil

/-- What a change makes of the editor of another id. -/
def carry (w : Write) (z : ParamId) (e : Editor) : Editor :=
  match w.editor? with
  | some current => if z ∈ w.above then patchEditor current.param e else e
  | none => e

/-- A change that comes behind another one: the editor has exchanged its copies meanwhile. -/
def behind (w w' : Write) : Write := { w with editor? := w.editor?.map (w'.carry w.id) }

/-- A change that an editor can undergo. -/
structure IsProper (w : Write) : Prop where
  /-- The groups above the id are different from each other and from the id. -/
  nodup : (w.id :: w.above).Nodup
  /-- The editor stays bound to a parameter of the id, and to one with nothing below it if that is
  taken over. -/
  bound : ∀ e ∈ w.editor?, e.param.id = w.id ∧ (w.above ≠ [] → e.param.children = [])

/-- Two changes are of different ids, and of two ids one above the other, the upper one gives
nothing to the groups above it. -/
structure IsApart (w w' : Write) : Prop where
  /-- The ids are different. -/
  ne : w.id ≠ w'.id
  /-- The second change may be above the first one. -/
  above : w'.id ∈ w.above → w'.above = []
  /-- The first change may be above the second one. -/
  below : w.id ∈ w'.above → w.above = []

theorem IsApart.symm (h : w.IsApart w') : w'.IsApart w := ⟨h.ne.symm, h.below, h.above⟩

theorem carry_of_eq_none (h : w.editor? = none) (z : ParamId) (e : Editor) : w.carry z e = e := by
  rw [carry, h]

theorem carry_of_mem (h : w.editor? = some e') (hz : z ∈ w.above) (e : Editor) :
    w.carry z e = patchEditor e'.param e := by
  rw [carry, h]
  exact if_pos hz

theorem carry_of_notMem (hz : z ∉ w.above) (e : Editor) : w.carry z e = e := by
  rw [carry]
  cases w.editor? with
  | none => rfl
  | some current => exact if_neg hz

/-- A group makes the same of an operation once copies have been exchanged in it. -/
theorem operate_carry (h : z ∈ w.above → e.kind = .group) (op : Operation) :
    (w.carry z e).operate op = (e.operate op).map fun result =>
      (w.carry z result.1, result.2) := by
  have hstay : (∀ e, w.carry z e = e) → (w.carry z e).operate op =
      (e.operate op).map fun result => (w.carry z result.1, result.2) := by
    intro hsame
    simp only [hsame]
    cases e.operate op with
    | error problem => rfl
    | ok result => rfl
  cases hc : w.editor? with
  | none => exact hstay (carry_of_eq_none hc z)
  | some c =>
    by_cases hz : z ∈ w.above
    · simp only [carry_of_mem hc hz]
      exact operate_patchEditor (h hz) c.param op
    · exact hstay (carry_of_notMem hz)

/-- What comes behind another change still makes the same of all other editors: if the other one
has exchanged a copy in its editor, it does not reach any. -/
theorem carry_behind (h : w.IsApart w') (z : ParamId) : (w'.behind w).carry z = w'.carry z := by
  funext e
  by_cases hz : z ∈ w'.above
  · have hout : w'.id ∉ w.above := by
      intro hmem
      rw [h.above hmem] at hz
      exact List.not_mem_nil hz
    have hsame : w'.editor?.map (w.carry w'.id) = w'.editor? := by
      cases w'.editor? with
      | none => rfl
      | some current => exact congrArg some (carry_of_notMem hout current)
    rw [carry, behind, hsame, carry]
  · rw [carry_of_notMem hz]
    exact carry_of_notMem (w := w'.behind w) hz e

/-- An editor of a third id has the copies of both exchanged in either order. -/
theorem carry_comm (hw : w.IsProper) (hw' : w'.IsProper) (hne : w.id ≠ w'.id)
    (hnodup : e.param.ids.Nodup) (hid : e.param.id ≠ w.id) (hid' : e.param.id ≠ w'.id) :
    w'.carry z (w.carry z e) = w.carry z (w'.carry z e) := by
  by_cases hz : z ∈ w.above
  · by_cases hz' : z ∈ w'.above
    · cases hc : w.editor? with
      | none => rw [carry_of_eq_none hc, carry_of_eq_none hc]
      | some c =>
        cases hc' : w'.editor? with
        | none => rw [carry_of_eq_none hc', carry_of_eq_none hc']
        | some c' =>
          obtain ⟨hcid, hcleaf⟩ := hw.bound c hc
          obtain ⟨hcid', hcleaf'⟩ := hw'.bound c' hc'
          rw [carry_of_mem hc hz, carry_of_mem hc' hz', carry_of_mem hc' hz', carry_of_mem hc hz]
          apply patchEditor_comm hnodup (hcid ▸ hid) (hcid' ▸ hid')
            (hcleaf (List.ne_nil_of_mem hz)) (hcleaf' (List.ne_nil_of_mem hz'))
          rwa [hcid, hcid']
    · rw [carry_of_notMem hz', carry_of_notMem hz']
  · rw [carry_of_notMem hz, carry_of_notMem hz]

end Write

variable {w w' : Write}

theorem write_eq_with (t : EditorTree) (w : Write) : ∃ editors, t.write w = { t with editors } := by
  rw [write]
  cases w.editor? with
  | none => exact ⟨t.editors, rfl⟩
  | some e =>
    obtain ⟨editors, heq⟩ := foldl_patch_eq_with e.param w.above (t.setEditor w.id e)
    exact ⟨editors, heq⟩

@[simp] theorem parent?_write (t : EditorTree) (w : Write) (z : ParamId) :
    (t.write w).parent? z = t.parent? z := by
  obtain ⟨editors, heq⟩ := t.write_eq_with w
  rw [heq]
  rfl

/-- The changed id has the editor that the change makes. -/
theorem get?_write_self (hw : w.IsProper) (t : EditorTree) :
    (t.write w).get? w.id = w.editor?.or (t.get? w.id) := by
  obtain ⟨hid, hnodup⟩ := List.nodup_cons.mp hw.nodup
  rw [write]
  cases w.editor? with
  | none => rfl
  | some e => simp [get?_foldl_patch hnodup, hid]

/-- Every other id has its editor, in which a copy may have been exchanged. -/
theorem get?_write_of_ne (hw : w.IsProper) (t : EditorTree) (hz : z ≠ w.id) :
    (t.write w).get? z = (t.get? z).map (w.carry z) := by
  obtain ⟨-, hnodup⟩ := List.nodup_cons.mp hw.nodup
  rw [write]
  -- An editor that nothing is carried to is as it was.
  have hstay : (∀ e, w.carry z e = e) → (t.get? z).map (w.carry z) = t.get? z := by
    intro h
    cases t.get? z with
    | none => rfl
    | some e => exact congrArg some (h e)
  cases hc : w.editor? with
  | none => exact (hstay (Write.carry_of_eq_none hc z)).symm
  | some c =>
    dsimp only
    rw [get?_foldl_patch hnodup, get?_setEditor, if_neg hz.symm]
    split_ifs with habove
    · congr 1
      funext e
      exact (Write.carry_of_mem hc habove e).symm
    · exact (hstay (Write.carry_of_notMem habove)).symm

theorem Write.IsProper.behind (hw : w.IsProper) (w' : Write) : (w.behind w').IsProper := by
  refine ⟨hw.nodup, fun e he => ?_⟩
  obtain ⟨e₀, he₀, rfl⟩ := Option.map_eq_some_iff.mp he
  obtain ⟨hid, hleaf⟩ := hw.bound e₀ he₀
  rw [Write.carry]
  cases w'.editor? with
  | none => exact ⟨hid, hleaf⟩
  | some current =>
    dsimp only
    split_ifs with hz
    · rw [param_patchEditor, Param.id_replaceDescendant]
      refine ⟨hid, fun habove => ?_⟩
      rw [Param.replaceDescendant_of_children_eq_nil (hleaf habove)]
      exact hleaf habove
    · exact ⟨hid, hleaf⟩

/-- Trees that differ in their editors at most are the same if all ids have the same editors. -/
theorem eq_of_get?_eq (hwith : ∃ editors, t' = { t with editors })
    (h : ∀ z, t'.get? z = t.get? z) : t' = t := by
  obtain ⟨editors, rfl⟩ := hwith
  have heditors : editors = t.editors := Std.ExtTreeMap.ext_getElem? fun {z} => h z
  rw [heditors]

/-- Where one of two changes takes place, the editor is that of the one, with what the other one
carries. -/
theorem get?_write_behind_self (t : EditorTree) (hw : w.IsProper) (hw' : w'.IsProper)
    (h : w.IsApart w') :
    ((t.write w).write (w'.behind w)).get? w.id =
      ((t.write w').write (w.behind w')).get? w.id := by
  have hself := get?_write_self (hw.behind w') (t.write w')
  have hother : (t.write w').get? (w.behind w').id = (t.get? w.id).map (w'.carry w.id) :=
    get?_write_of_ne hw' t h.ne
  rw [get?_write_of_ne (hw'.behind w) _ h.ne, get?_write_self hw, Write.carry_behind h]
  refine Eq.trans ?_ hself.symm
  rw [hother, Write.behind]
  exact Option.map_or

/-- Two changes of different ids lead to the same tree in either order. -/
theorem write_comm (hnodup : ∀ z e, t.get? z = some e → e.param.id = z ∧ e.param.ids.Nodup)
    (hw : w.IsProper) (hw' : w'.IsProper) (h : w.IsApart w') :
    (t.write w).write (w'.behind w) = (t.write w').write (w.behind w') := by
  apply eq_of_get?_eq
  · obtain ⟨e₁, h₁⟩ := t.write_eq_with w
    obtain ⟨e₂, h₂⟩ := t.write_eq_with w'
    obtain ⟨e₃, h₃⟩ := (t.write w).write_eq_with (w'.behind w)
    obtain ⟨e₄, h₄⟩ := (t.write w').write_eq_with (w.behind w')
    exact ⟨e₃, by rw [h₃, h₄, h₁, h₂]⟩
  · intro z
    by_cases hzw : z = w.id
    · rw [hzw]
      exact t.get?_write_behind_self hw hw' h
    · by_cases hzw' : z = w'.id
      · rw [hzw']
        exact (t.get?_write_behind_self hw' hw h.symm).symm
      · rw [get?_write_of_ne (hw'.behind w) _ hzw', get?_write_of_ne hw t hzw,
          get?_write_of_ne (hw.behind w') _ hzw, get?_write_of_ne hw' t hzw',
          Write.carry_behind h, Write.carry_behind h.symm, Option.map_map, Option.map_map]
        cases he : t.get? z with
        | none => rfl
        | some e =>
          obtain ⟨rfl, hids⟩ := hnodup z e he
          exact congrArg some (Write.carry_comm hw hw' h.ne hids hzw hzw')

/-! ### Operations -/

/-- A pushed value is a change of its editor. -/
theorem bindValue_eq (he : t.get? id = some e) (hclimbs : t.Climbs id l) (val : Value) :
    t.bindValue id val =
      some ((e.operate (.push val)).map fun result => t.write (.ofOperation id l result)) := by
  rw [bindValue, he]
  dsimp only
  rw [Editor.operate]
  cases hbind : e.bindValue val with
  | error problem => rfl
  | ok e' =>
    have hget : (t.setEditor id e').get? id = some e' := by simp
    have hclimbs' : (t.setEditor id e').Climbs id l := hclimbs.congr fun _ _ => rfl
    simp only [syncAncestors_eq hget hclimbs']
    rfl

/-- An interaction is a change of its editor, which the groups above take over if there is a new
value. -/
theorem interact_eq (he : t.get? id = some e) (hclimbs : t.Climbs id l)
    (interaction : Interaction) :
    t.interact id interaction = some ((e.operate (.interact interaction)).map fun result =>
      (t.write (.ofOperation id l result), result.2)) := by
  rw [interact, he]
  dsimp only
  rw [Editor.operate]
  cases hinteract : e.interact interaction with
  | error problem => rfl
  | ok result =>
    obtain ⟨e', val?⟩ := result
    cases val? with
    | none => rfl
    | some val =>
      have hget : (t.setEditor id e').get? id = some e' := by simp
      have hclimbs' : (t.setEditor id e').Climbs id l := hclimbs.congr fun _ _ => rfl
      simp only [syncAncestors_eq hget hclimbs']
      rfl

namespace IsFaithful

variable {result : Editor × Option Value}

/-- Only groups are above an id. -/
theorem kind_eq_group_of_mem_climbs (hf : t.IsFaithful) (hh : t.IsHeld) (ha : t.get? a ≠ none)
    (hclimbs : t.Climbs a l) (hb : b ∈ l) (he : t.get? b = some e) : e.kind = .group := by
  obtain ⟨-, hbelow⟩ := (hf.mem_climbs_iff hh ha hclimbs).mp hb
  obtain ⟨q, hq, hqid, hmem⟩ := (Forest.transGen_under_iff hf.nodup_ids).mp hbelow
  obtain ⟨hnode, hid⟩ := hf.bound b e he
  obtain rfl := Forest.eq_of_id_eq hf.nodup_ids hnode hq (hid.trans hqid.symm)
  rw [hf.kind_eq b e he]
  cases hparam : e.param with
  | leaf i name control =>
    rw [hparam] at hmem
    exact absurd hmem List.not_mem_nil
  | group i name params hidden => rfl

theorem isProper_ofOperation (hf : t.IsFaithful) (he : t.get? id = some e)
    (hclimbs : t.Climbs id l) (hop : e.operate op = .ok result) :
    (Write.ofOperation id l result).IsProper := by
  obtain ⟨hid, hleaf⟩ := Editor.param_of_operate (hf.kind_eq id e he) hop
  refine ⟨?_, fun e' he' => ?_⟩
  · rw [Write.ofOperation]
    split_ifs
    · exact hclimbs.nodup
    · exact List.nodup_singleton id
  · obtain rfl := Option.some.inj he'
    refine ⟨hid.trans (hf.bound id e he).2, fun habove => hleaf fun hnone => ?_⟩
    simp [Write.ofOperation, hnone] at habove

/-- From a group nothing goes up. -/
theorem above_ofOperation_eq_nil (hf : t.IsFaithful) (he : t.get? id = some e)
    (hgroup : e.kind = .group) (hop : e.operate op = .ok result) :
    (Write.ofOperation id l result).above = [] := by
  have hnone := Editor.eq_none_of_operate_group (hf.kind_eq id e he) hgroup hop
  simp [Write.ofOperation, hnone]

end IsFaithful

end EditorTree

end LiveTuner
