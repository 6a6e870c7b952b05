import LiveTuner.Proofs.Registry.Flattening
import Mathlib.Logic.Relation

/-!
# Definitions that have nothing to do with each other

A definition that comes in changes the entries of its own ids, drops ids that its id held before,
and is copied into the entries that hold its id. All these ids are linked: two of them always stand
in one definition, of the list or of the registry. So whatever is not linked with a definition, by
however many links, has the same entry whether the definition is in the list or not.

Nothing is asked of the definitions: ids may be repeated within them and among them.

## Main definitions

* `Registry.Links` — an id stands in the definition of another one
* `Registry.IsSplit` — no entry has ids on both sides of a set

## Main results

* `Registry.IsSplit.flattenOne` — definitions on one side keep the registry split
* `Registry.get?_flatten_without` — a definition of a list changes nothing on the other side
* `Registry.get?_flatten_of_not_linked` — nor anything that it is not linked with
-/

namespace LiveTuner

namespace Param

variable {p q r : Param} {i : ParamId}

/-- The ids of a definition are all in the set, or all outside it. -/
def IsOnOneSide (U : ParamId → Prop) (p : Param) : Prop := ∀ i ∈ p.ids, (U i ↔ U p.id)

/-- An exchanged copy brings the ids of its replacement, and no others. -/
theorem mem_descendantIds_of_replaceDescendant? (h : p.replaceDescendant? r = some q)
    (hi : i ∈ q.descendantIds) : i ∈ p.descendantIds ∨ i ∈ r.ids := by
  induction p using Param.induction generalizing q i with
  | leaf j name control => cases h
  | group j name params hidden ih =>
    obtain ⟨params', hparams', rfl⟩ := Option.map_eq_some_iff.mp h
    obtain ⟨c, hc, hic⟩ := mem_descendantIds_iff.mp hi
    have hbelow : ∀ m ∈ params.map Prod.snd, i ∈ m.ids →
        i ∈ (group j name params hidden).descendantIds :=
      fun m hm him => mem_descendantIds_iff.mpr ⟨m, hm, him⟩
    rcases (members_of_replaceAmong? hparams').2 c hc with hc | rfl | ⟨m, hm, hmc⟩
    · exact Or.inl (hbelow c hc hic)
    · exact Or.inr hic
    · rw [ids_eq_cons, List.mem_cons, id_of_replaceDescendant? hmc] at hic
      rcases hic with rfl | hic
      · exact Or.inl (hbelow m hm (id_mem_ids m))
      · exact (ih m hm hmc hic).imp_left fun him => hbelow m hm (List.mem_cons_of_mem _ him)

/-- Exchanging copies of a definition that is on the same side keeps a definition on its side. -/
theorem IsOnOneSide.replaceDescendant {U : ParamId → Prop} (hp : p.IsOnOneSide U)
    (hr : r.IsOnOneSide U) : (p.replaceDescendant r).IsOnOneSide U := by
  intro i hi
  rw [id_replaceDescendant]
  -- A copy is exchanged only where there is one below, and then its id ties the two sides together.
  by_cases hbelow : r.id ∈ p.descendantIds
  · have hside : U r.id ↔ U p.id := hp r.id (List.mem_cons_of_mem _ hbelow)
    rw [Param.replaceDescendant] at hi
    cases h : p.replaceDescendant? r with
    | none =>
      rw [h] at hi
      exact hp i hi
    | some q =>
      rw [h, Option.getD_some, ids_eq_cons, List.mem_cons, id_of_replaceDescendant? h] at hi
      rcases hi with rfl | hi
      · exact Iff.rfl
      · rcases mem_descendantIds_of_replaceDescendant? h hi with hi | hi
        · exact hp i (List.mem_cons_of_mem _ hi)
        · exact (hr i hi).trans hside
  · rw [replaceDescendant_of_notMem hbelow] at hi
    exact hp i hi

theorem IsOnOneSide.of_mem_nodes {U : ParamId → Prop} (hp : p.IsOnOneSide U) (hq : q ∈ p.nodes) :
    q.IsOnOneSide U := by
  intro i hi
  exact (hp i (mem_ids_of_mem_ids hq hi)).trans (hp q.id (mem_ids_of_mem_nodes hq)).symm

end Param

namespace Registry

variable {r r' : Registry} {ps : List Param} {p q : Param} {id i j : ParamId}
  {U : ParamId → Prop}

/-! ### Entries -/

theorem get?_foldl_insertTree_congr
    (hps : ∀ p ∈ ps, ∀ r r' : Registry, r.get? id = r'.get? id →
      (r.insertTree p).get? id = (r'.insertTree p).get? id) (h : r.get? id = r'.get? id) :
    (ps.foldl insertTree r).get? id = (ps.foldl insertTree r').get? id := by
  induction ps generalizing r r' with
  | nil => exact h
  | cons p rest ih =>
    obtain ⟨hp, hrest⟩ := List.forall_mem_cons.mp hps
    exact ih hrest (hp r r' h)

/-- What a definition makes of the entry of an id depends on that entry alone. -/
theorem get?_insertTree_congr (p : Param) (r r' : Registry) (h : r.get? id = r'.get? id) :
    (r.insertTree p).get? id = (r'.insertTree p).get? id := by
  induction p using Param.induction generalizing r r' with
  | leaf i name control =>
    rw [insertTree_eq, insertTree_eq, get?_insert, get?_insert]
    split
    · rfl
    · exact h
  | group i name params hidden ih =>
    rw [insertTree_eq, insertTree_eq, get?_insert, get?_insert]
    split
    · rfl
    · exact get?_foldl_insertTree_congr ih h

theorem get?_foldl_insertTree_cases
    (hps : ∀ p ∈ ps, ∀ r : Registry, (r.insertTree p).get? id = some q →
      q ∈ p.nodes ∧ q.id = id ∨ r.get? id = some q)
    (h : (ps.foldl insertTree r).get? id = some q) :
    (∃ p ∈ ps, q ∈ p.nodes ∧ q.id = id) ∨ r.get? id = some q := by
  induction ps generalizing r with
  | nil => exact Or.inr h
  | cons p rest ih =>
    obtain ⟨hp, hrest⟩ := List.forall_mem_cons.mp hps
    rcases ih hrest h with ⟨p', hp', hq⟩ | h
    · exact Or.inl ⟨p', List.mem_cons_of_mem _ hp', hq⟩
    · rcases hp r h with hq | h
      · exact Or.inl ⟨p, List.mem_cons_self, hq⟩
      · exact Or.inr h

/-- An entry stands in the definition that came in, or was there before. -/
theorem get?_insertTree_cases (p : Param) (r : Registry) (h : (r.insertTree p).get? id = some q) :
    q ∈ p.nodes ∧ q.id = id ∨ r.get? id = some q := by
  induction p using Param.induction generalizing r with
  | leaf i name control =>
    rw [insertTree_eq, get?_insert] at h
    split at h
    · next hid =>
      cases h
      exact Or.inl ⟨Param.self_mem_nodes _, hid⟩
    · exact Or.inr h
  | group i name params hidden ih =>
    rw [insertTree_eq, get?_insert] at h
    split at h
    · next hid =>
      cases h
      exact Or.inl ⟨Param.self_mem_nodes _, hid⟩
    · rcases get?_foldl_insertTree_cases ih h with ⟨c, hc, hq, hid⟩ | h
      · exact Or.inl ⟨Param.mem_nodes_iff.mpr (Or.inr ⟨c, hc, hq⟩), hid⟩
      · exact Or.inr h

/-- What a definition that comes in makes of the entry of an id depends on that entry and on the one
of its own id. -/
theorem get?_flattenOne_congr (hp : r.get? p.id = r'.get? p.id) (h : r.get? id = r'.get? id) :
    (r.flattenOne p).get? id = (r'.flattenOne p).get? id := by
  have hheld : r.Holds p.id id ↔ r'.Holds p.id id := by rw [Holds, Holds, hp]
  have hdropped : (r.dropStale p).get? id = (r'.dropStale p).get? id := by
    rw [get?_dropStale, get?_dropStale, h]
    exact if_congr (and_congr_left' hheld) rfl rfl
  rw [flattenOne, flattenOne, get?_patchCopies, get?_patchCopies,
    get?_insertTree_congr p _ _ hdropped]

/-! ### Sides -/

/-- No entry has ids on both sides of the set. -/
def IsSplit (U : ParamId → Prop) (r : Registry) : Prop :=
  ∀ id p, r.get? id = some p → (U p.id ↔ U id) ∧ p.IsOnOneSide U

/-- A definition on one side keeps the registry split. -/
theorem IsSplit.flattenOne (h : r.IsSplit U) (hp : p.IsOnOneSide U) :
    (r.flattenOne p).IsSplit U := by
  intro id q hq
  rw [Registry.flattenOne, get?_patchCopies] at hq
  obtain ⟨entry, hentry, rfl⟩ := Option.map_eq_some_iff.mp hq
  have hside : (U entry.id ↔ U id) ∧ entry.IsOnOneSide U := by
    rcases get?_insertTree_cases p _ hentry with ⟨hnode, rfl⟩ | hentry
    · exact ⟨Iff.rfl, hp.of_mem_nodes hnode⟩
    · rw [get?_dropStale] at hentry
      split at hentry
      · cases hentry
      · exact h id entry hentry
  split
  · exact hside
  · exact ⟨by rw [Param.id_replaceDescendant]; exact hside.1, hside.2.replaceDescendant hp⟩

/-- A definition on one side changes nothing on the other one. -/
theorem IsSplit.get?_flattenOne (h : r.IsSplit U) (hp : p.IsOnOneSide U) (hpid : U p.id)
    (hid : ¬ U id) : (r.flattenOne p).get? id = r.get? id := by
  have hout : id ∉ p.ids := fun hmem => hid ((hp id hmem).mpr hpid)
  have hheld : ¬ r.Holds p.id id := by
    rintro ⟨q, hq, hbelow⟩
    obtain ⟨hqid, hside⟩ := h p.id q hq
    exact hid ((hside id (List.mem_cons_of_mem _ hbelow)).mpr (hqid.mpr hpid))
  rw [get?_flattenOne_of_notMem hout, if_neg hheld]
  cases hentry : r.get? id with
  | none => rfl
  | some entry =>
    obtain ⟨heid, hside⟩ := h id entry hentry
    have hbelow : p.id ∉ entry.descendantIds := fun hbelow =>
      hid (heid.mp ((hside p.id (List.mem_cons_of_mem _ hbelow)).mp hpid))
    rw [Option.map_some, Param.replaceDescendant_of_notMem hbelow]

/-- Registries that agree outside a set go on agreeing there. -/
theorem IsSplit.get?_flatten_congr (h : r.IsSplit U) (h' : r'.IsSplit U)
    (hps : ∀ p ∈ ps, p.IsOnOneSide U) (heq : ∀ id, ¬ U id → r.get? id = r'.get? id)
    (hid : ¬ U id) : (r.flatten ps).get? id = (r'.flatten ps).get? id := by
  induction ps generalizing r r' with
  | nil => exact heq id hid
  | cons p rest ih =>
    obtain ⟨hp, hrest⟩ := List.forall_mem_cons.mp hps
    apply ih (h.flattenOne hp) (h'.flattenOne hp) hrest
    intro z hz
    -- On the inner side the definition leaves both as they are; on the outer one they agree on all
    -- that it looks at.
    by_cases hpid : U p.id
    · rw [h.get?_flattenOne hp hpid hz, h'.get?_flattenOne hp hpid hz, heq z hz]
    · exact get?_flattenOne_congr (heq p.id hpid) (heq z hz)

theorem IsSplit.flatten (h : r.IsSplit U) (hps : ∀ p ∈ ps, p.IsOnOneSide U) :
    (r.flatten ps).IsSplit U := by
  induction ps generalizing r with
  | nil => exact h
  | cons p rest ih =>
    obtain ⟨hp, hrest⟩ := List.forall_mem_cons.mp hps
    exact ih (h.flattenOne hp) hrest

/-- A definition of a list changes nothing on the other side. -/
theorem IsSplit.get?_flatten_without {before after : List Param} (h : r.IsSplit U)
    (hps : ∀ q ∈ before ++ p :: after, q.IsOnOneSide U) (hpid : U p.id) (hid : ¬ U id) :
    (r.flatten (before ++ p :: after)).get? id = (r.flatten (before ++ after)).get? id := by
  obtain ⟨hbefore, hafter⟩ := List.forall_mem_append.mp hps
  obtain ⟨hp, hafter⟩ := List.forall_mem_cons.mp hafter
  have hsplit := h.flatten hbefore
  rw [Registry.flatten, Registry.flatten, List.foldl_append, List.foldl_append, List.foldl_cons]
  exact (hsplit.flattenOne hp).get?_flatten_congr hsplit hafter
    (fun z hz => hsplit.get?_flattenOne hp hpid hz) hid

/-! ### Links -/

/-- One id stands in a definition of the other one, among the definitions of a list or in the
registry. -/
def Links (r : Registry) (ps : List Param) (i j : ParamId) : Prop :=
  (∃ p ∈ ps, p.id = i ∧ j ∈ p.ids) ∨ ∃ p, r.get? i = some p ∧ j ∈ p.ids

/-- What is not linked with a definition of a list, by however many links, has the same entry as
without the definition. -/
theorem get?_flatten_of_not_linked {before after : List Param}
    (hid : ¬ Relation.EqvGen (r.Links (before ++ p :: after)) p.id id) :
    (r.flatten (before ++ p :: after)).get? id = (r.flatten (before ++ after)).get? id := by
  have hlinks : ∀ {i j}, r.Links (before ++ p :: after) i j →
      (Relation.EqvGen (r.Links (before ++ p :: after)) p.id j ↔
        Relation.EqvGen (r.Links (before ++ p :: after)) p.id i) := by
    intro i j hlink
    constructor
    · exact fun h => h.trans _ _ _ (.symm _ _ (.rel _ _ hlink))
    · exact fun h => h.trans _ _ _ (.rel _ _ hlink)
  refine IsSplit.get?_flatten_without (U := Relation.EqvGen (r.Links (before ++ p :: after)) p.id)
    ?_ ?_ (.refl _) hid
  · intro i q hq
    have hself : Relation.EqvGen (r.Links (before ++ p :: after)) p.id q.id ↔
        Relation.EqvGen (r.Links (before ++ p :: after)) p.id i :=
      hlinks (Or.inr ⟨q, hq, Param.id_mem_ids q⟩)
    exact ⟨hself, fun j hj => (hlinks (Or.inr ⟨q, hq, hj⟩)).trans hself.symm⟩
  · intro q hq j hj
    exact hlinks (Or.inl ⟨q, hq, rfl, hj⟩)

end Registry

end LiveTuner
