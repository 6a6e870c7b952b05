import LiveTuner.Proofs.Registry
import Mathlib.Data.List.Induction

/-!
# Definitions that come in together

A list of definitions is taken in one definition after the other, and each drops the ids that were
below its own id before and no longer are. An id may have moved meanwhile: if an earlier definition
of the same list has just brought it to its new place, the drop takes away the entry it has there.
So in one order of the list every id has its definition as its entry, and in the other order an id
that the list defines has no entry at all.

The ids of the list are taken to be distinct, those of nested parameters included. Nothing is asked
of the registry the list meets.

## Main definitions

* `Registry.Loses` — a later definition of a list drops an id of an earlier one

## Main results

* `Registry.get?_flatten` — an id of the list has its definition as its entry, or none if it is lost
* `Registry.not_loses_of_pairwise` — no id is lost if none moves to a definition in front of the one
  that has held it
* `Registry.get?_flatten_eq_some_iff` — when every id has its definition as its entry
-/

namespace LiveTuner.Registry

variable {r : Registry} {ps : Forest} {p q : Param} {id : ParamId}

/-- A definition of the list drops the id, which stands in a definition before it. -/
def Loses (r : Registry) (ps : Forest) (id : ParamId) : Prop :=
  ∃ (before : Forest) (p : Param),
    before ++ [p] <+: ps ∧ id ∈ before.ids ∧ (r.flatten before).Holds p.id id

theorem flatten_append_singleton (r : Registry) (ps : Forest) (p : Param) :
    r.flatten (ps ++ [p]) = (r.flatten ps).flattenOne p := List.foldl_concat ..

/-- A definition at the end of a list drops what is still below its id by then. -/
theorem loses_append_singleton :
    r.Loses (ps ++ [p]) id ↔ r.Loses ps id ∨ id ∈ ps.ids ∧ (r.flatten ps).Holds p.id id := by
  constructor
  · rintro ⟨before, p', hprefix, hid, hheld⟩
    rcases List.prefix_concat_iff.mp hprefix with heq | hprefix
    · obtain ⟨rfl, hlast⟩ := List.append_inj' heq rfl
      obtain rfl := List.singleton_inj.mp hlast
      exact Or.inr ⟨hid, hheld⟩
    · exact Or.inl ⟨before, p', hprefix, hid, hheld⟩
  · rintro (⟨before, p', hprefix, hid, hheld⟩ | ⟨hid, hheld⟩)
    · exact ⟨before, p', hprefix.trans (List.prefix_append ps [p]), hid, hheld⟩
    · exact ⟨ps, p, List.prefix_refl _, hid, hheld⟩

theorem Loses.mem_ids (h : r.Loses ps id) : id ∈ ps.ids := by
  obtain ⟨before, p, ⟨after, rfl⟩, hid, -⟩ := h
  rw [List.append_assoc, Forest.ids_append]
  exact List.mem_append_left _ hid

/-- An id of the list has its definition as its entry, or none if it is lost. -/
theorem get?_flatten (h : ps.ids.Nodup) (hq : q ∈ ps.nodes) :
    (r.Loses ps q.id → (r.flatten ps).get? q.id = none) ∧
      (¬ r.Loses ps q.id → (r.flatten ps).get? q.id = some q) := by
  induction ps using List.reverseRecOn with
  | nil => exact absurd hq List.not_mem_nil
  | append_singleton ps p ih =>
    rw [Forest.ids_append, Forest.ids_singleton] at h
    obtain ⟨hps, hp, hdisj⟩ := List.nodup_append.mp h
    rw [Forest.nodes_append, Forest.nodes_singleton, List.mem_append] at hq
    rw [flatten_append_singleton, loses_append_singleton]
    rcases hq with hq | hq
    · -- An id of an earlier definition: the last one may drop it, and has nothing to exchange.
      have hmem : q.id ∈ Forest.ids ps := Forest.mem_ids_of_mem_nodes hq
      have hout : q.id ∉ p.ids := fun hid => hdisj _ hmem _ hid rfl
      have hstay : q.replaceDescendant p = q := by
        apply Param.replaceDescendant_of_notMem
        intro hbelow
        have hpq : p.id ∈ Forest.ids ps := Forest.mem_ids_trans hq (List.mem_cons_of_mem _ hbelow)
        exact hdisj _ hpq _ (Param.id_mem_ids p) rfl
      obtain ⟨hlost, hkept⟩ := ih hps hq
      rw [get?_flattenOne_of_notMem hout]
      constructor
      · rintro (hloses | ⟨-, hheld⟩)
        · simp [hlost hloses]
        · rw [if_pos hheld]
      · intro hnot
        obtain ⟨hloses, hheld⟩ := not_or.mp hnot
        rw [if_neg fun hheld' => hheld ⟨hmem, hheld'⟩, hkept hloses, Option.map_some, hstay]
    · -- An id of the last definition: nothing comes after it, and no definition before has the id.
      have hout : q.id ∉ Forest.ids ps := fun hid =>
        hdisj _ hid _ (Param.mem_ids_of_mem_nodes hq) rfl
      rw [get?_flattenOne_of_mem hp hq]
      refine ⟨?_, fun _ => rfl⟩
      rintro (hloses | ⟨hmem, -⟩)
      · exact absurd hloses.mem_ids hout
      · exact absurd hmem hout

/-- An entry that holds no definition of the list stays as it is, or is dropped. -/
theorem get?_flatten_of_notMem (hid : id ∉ ps.ids) (hps : ∀ p ∈ ps, ¬ r.Holds id p.id) :
    (r.flatten ps).get? id = none ∨ (r.flatten ps).get? id = r.get? id := by
  induction ps using List.reverseRecOn with
  | nil => exact Or.inr rfl
  | append_singleton ps p ih =>
    rw [Forest.ids_append, Forest.ids_singleton, List.mem_append, not_or] at hid
    rw [flatten_append_singleton, get?_flattenOne_of_notMem hid.2]
    split
    · exact Or.inl rfl
    · rcases ih hid.1 fun p' hp' => hps p' (List.mem_append_left _ hp') with hnone | hsame
      · exact Or.inl (by rw [hnone, Option.map_none])
      · right
        rw [hsame]
        cases hentry : r.get? id with
        | none => rfl
        | some entry =>
          have hbelow : p.id ∉ entry.descendantIds := fun hbelow =>
            hps p (by simp) ⟨entry, hentry, hbelow⟩
          rw [Option.map_some, Param.replaceDescendant_of_notMem hbelow]

/-- If no definition has held an id of a definition before it, no id is lost: none has moved to the
front. -/
theorem not_loses_of_pairwise (h : ps.ids.Nodup)
    (hps : ps.Pairwise fun p p' => ∀ id ∈ p.ids, ¬ r.Holds p'.id id) : ¬ r.Loses ps id := by
  rintro ⟨before, p, ⟨after, rfl⟩, hid, hheld⟩
  rw [List.append_assoc, List.singleton_append] at h hps
  have hnew := (Forest.nodup_ids_append_cons h).2 p.id (Param.id_mem_ids p)
  have hbefore : ∀ p' ∈ before, ∀ id ∈ p'.ids, ¬ r.Holds p.id id := fun p' hp' =>
    (List.pairwise_append.mp hps).2.2 p' hp' p List.mem_cons_self
  -- The entry of `p` that holds the id is still the one the list has met.
  obtain ⟨entry, hentry, hbelow⟩ := hheld
  rcases get?_flatten_of_notMem hnew fun p' hp' =>
      hbefore p' hp' _ (Param.id_mem_ids p') with hnone | hsame
  · simp [hnone] at hentry
  · obtain ⟨q, hq, rfl⟩ := Forest.mem_ids_iff.mp hid
    obtain ⟨p', hp', hq⟩ := List.mem_flatMap.mp hq
    exact hbefore p' hp' q.id (Param.mem_ids_of_mem_nodes hq) ⟨entry, hsame ▸ hentry, hbelow⟩

/-- The list leaves every id it defines with its definition as its entry, except for the ids it
loses, which are left with none. It loses none if no id moves to a definition in front of the one
that has held it. -/
theorem get?_flatten_eq_some_iff (r : Registry) (h : (Forest.ids ps).Nodup) :
    (∀ q ∈ Forest.nodes ps,
      ((r.flatten ps).get? q.id = some q ↔ ¬ r.Loses ps q.id) ∧
      ((r.flatten ps).get? q.id = none ↔ r.Loses ps q.id)) ∧
    (ps.Pairwise (fun p p' => ∀ id ∈ p.ids, ¬ r.Holds p'.id id) →
      ∀ q ∈ Forest.nodes ps, (r.flatten ps).get? q.id = some q) := by
  refine ⟨fun q hq => ?_, fun hps q hq => (get?_flatten h hq).2 (not_loses_of_pairwise h hps)⟩
  obtain ⟨hlost, hkept⟩ := get?_flatten (r := r) h hq
  by_cases hloses : r.Loses ps q.id
  · simp [hlost hloses, hloses]
  · simp [hkept hloses, hloses]

/-- Two groups, and a flag in the first of them. -/
def sampleFront : List Param :=
  [.group ⟨1⟩ "lamp" [("slow", .leaf ⟨3⟩ "slow" (.flag true))] [], .group ⟨2⟩ "fan" [] []]

/-- The flag has moved to the second group. -/
def sampleBack : List Param :=
  [.group ⟨1⟩ "lamp" [] [], .group ⟨2⟩ "fan" [("slow", .leaf ⟨3⟩ "slow" (.flag true))] []]

/-- A flag that moves to the back is kept. -/
theorem get?_flatten_sampleBack :
    (Forest.ids sampleBack).Nodup ∧
    sampleBack.Pairwise (fun p p' => ∀ id ∈ p.ids, ¬ (empty.flatten sampleFront).Holds p'.id id) ∧
    ∀ q ∈ Forest.nodes sampleBack,
      ((empty.flatten sampleFront).flatten sampleBack).get? q.id = some q :=
  have hids : (Forest.ids sampleBack).Nodup := by decide
  have hmoves : sampleBack.Pairwise fun p p' =>
      ∀ id ∈ p.ids, ¬ (empty.flatten sampleFront).Holds p'.id id := by decide
  ⟨hids, hmoves, (get?_flatten_eq_some_iff _ hids).2 hmoves⟩

/-- The same flag moves to the front again, and is lost: the second group drops it after the first
has brought it. -/
theorem get?_flatten_sampleFront :
    (Forest.ids sampleFront).Nodup ∧ (Forest.ids sampleBack).Nodup ∧
    ⟨3⟩ ∈ Forest.ids sampleFront ∧
    (((empty.flatten sampleFront).flatten sampleBack).flatten sampleFront).get? ⟨3⟩ = none := by
  decide

end LiveTuner.Registry
