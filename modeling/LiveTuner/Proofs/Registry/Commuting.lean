import LiveTuner.Proofs.Registry

/-!
# Values of different ids in the registry

The entry of a group holds copies of everything below it, so the values of two ids may have to be
written into one and the same entry. Each goes to the place of its own id there. So it does not
matter which of them comes first, and neither decides whether the other one is taken.

## Main definitions

* `Registry.put` — the registry with a definition at its id and in all copies
* `Registry.store` — the registry with a value at an id, if the value is taken

## Main results

* `Param.exchange_comm`, `Param.replaceDescendant_comm` — copies of different ids are exchanged in
  either order
* `Registry.taken?_store` — whether a value is taken does not depend on the values of other ids
* `Registry.Mirrors.store_comm` — values of different ids are stored in either order
-/

namespace LiveTuner

namespace Param

variable {p q r : Param}

/-! ### Copies -/

theorem ids_of_children_eq_nil (h : q.children = []) : q.ids = [q.id] := by
  rw [ids_eq_cons, descendantIds_eq, h]
  rfl

/-- A parameter without members holds no copy of another id. -/
theorem exchange_of_children_eq_nil (h : q.children = []) (hne : q.id ≠ r.id) :
    q.exchange r = q := by
  apply exchange_of_notMem
  rw [ids_of_children_eq_nil h, List.mem_singleton]
  exact Ne.symm hne

/-- At the place of one of two ids, the exchange of the other one finds nothing. -/
theorem exchange_comm_of_id_eq (hq : q.children = []) (hne : q.id ≠ r.id) (hp : p.id = q.id) :
    (p.exchange q).exchange r = (p.exchange r).exchange q := by
  rw [exchange_of_id_eq hp, exchange_of_children_eq_nil hq hne,
    exchange_of_id_eq ((exchange_id p r).trans hp)]

/-- Copies of two ids below which there is nothing are exchanged in either order. -/
theorem exchange_comm (hq : q.children = []) (hr : r.children = []) (hne : q.id ≠ r.id)
    (p : Param) : (p.exchange q).exchange r = (p.exchange r).exchange q := by
  induction p using Param.induction with
  | leaf i name control =>
    by_cases hiq : i = q.id
    · exact exchange_comm_of_id_eq hq hne hiq
    · by_cases hir : i = r.id
      · exact (exchange_comm_of_id_eq (p := leaf i name control) hr hne.symm hir).symm
      · rw [exchange_leaf_of_ne hiq, exchange_leaf_of_ne hir, exchange_leaf_of_ne hiq]
  | group i name params hidden ih =>
    by_cases hiq : i = q.id
    · exact exchange_comm_of_id_eq hq hne hiq
    · by_cases hir : i = r.id
      · exact (exchange_comm_of_id_eq (p := group i name params hidden) hr hne.symm hir).symm
      · -- Elsewhere both go on to the members.
        have hmembers : ∀ m ∈ params, (m.1, (m.2.exchange q).exchange r) =
            (m.1, (m.2.exchange r).exchange q) := by
          intro m hm
          rw [ih m.2 (List.mem_map_of_mem hm)]
        simp only [exchange_group_of_ne hiq, exchange_group_of_ne hir, List.map_map,
          Function.comp_def]
        rw [List.map_congr_left hmembers]

theorem replaceDescendant_of_children_eq_nil (h : q.children = []) (p : Param) :
    q.replaceDescendant p = q := by
  apply replaceDescendant_of_notMem
  rw [descendantIds_eq, h]
  exact List.not_mem_nil

theorem nodup_ids_exchange (h : p.ids.Nodup) (hq : q.children = []) :
    (p.exchange q).ids.Nodup := by
  by_cases hmem : q.id ∈ p.ids
  · have hp : (Forest.ids [p]).Nodup := by rwa [Forest.ids_singleton]
    have hdefine := Forest.nodup_ids_define hp (Forest.fits_of_children_eq_nil hq)
    rw [Forest.define, Forest.ids_singleton, if_pos hmem] at hdefine
    rwa [← Forest.ids_singleton]
  · rwa [exchange_of_notMem hmem]

/-- So are the first copies, if there is at most one of each id. -/
theorem replaceDescendant_comm (h : p.ids.Nodup) (hpq : p.id ≠ q.id) (hpr : p.id ≠ r.id)
    (hq : q.children = []) (hr : r.children = []) (hne : q.id ≠ r.id) :
    (p.replaceDescendant q).replaceDescendant r =
      (p.replaceDescendant r).replaceDescendant q := by
  have hid : ∀ x, (p.exchange x).id = p.id := exchange_id p
  rw [replaceDescendant_eq h hpq, replaceDescendant_eq h hpr,
    replaceDescendant_eq (nodup_ids_exchange h hq) (hid q ▸ hpr),
    replaceDescendant_eq (nodup_ids_exchange h hr) (hid r ▸ hpq), exchange_comm hq hr hne]

/-- What is exchanged below a parameter does not concern its own value. -/
@[simp] theorem setValue?_replaceDescendant (p q : Param) (val : Value) :
    (q.replaceDescendant p).setValue? val = q.setValue? val := by
  cases q with
  | leaf i name control => rfl
  | group i name params hidden =>
    rw [replaceDescendant, replaceDescendant?]
    cases replaceAmong? params p with
    | none => rfl
    | some params' => rfl

end Param

namespace Registry

variable {r r' : Registry} {f : Forest} {p q : Param} {a b id : ParamId} {val? wal? : Option Value}

theorem ext_get? (h : ∀ id, r.get? id = r'.get? id) : r = r' := by
  obtain ⟨entries⟩ := r
  obtain ⟨entries'⟩ := r'
  rw [mk.injEq]
  exact Std.ExtTreeMap.ext_getElem? fun {id} => h id

/-! ### Definitions at their ids -/

/-- The registry with a definition as the entry of its id and in the copies other entries hold. -/
def put (r : Registry) (p : Param) : Registry := (r.insert p).patchCopies p

theorem get?_put (r : Registry) (p : Param) (id : ParamId) :
    (r.put p).get? id =
      if id = p.id then some p else (r.get? id).map (·.replaceDescendant p) := by
  rw [put, get?_patchCopies, get?_insert]
  by_cases hid : id = p.id
  · simp [hid]
  · simp [hid, Ne.symm hid]

theorem get?_put_self (r : Registry) (p : Param) : (r.put p).get? p.id = some p := by
  rw [get?_put, if_pos rfl]

theorem get?_put_of_ne (r : Registry) (hid : id ≠ p.id) :
    (r.put p).get? id = (r.get? id).map (·.replaceDescendant p) := by
  rw [get?_put, if_neg hid]

/-- Definitions of different ids below which there is nothing are put in either order. -/
theorem Mirrors.put_comm (h : r.Mirrors f) (hp : p.children = []) (hq : q.children = [])
    (hne : p.id ≠ q.id) : (r.put p).put q = (r.put q).put p := by
  apply ext_get?
  intro id
  by_cases hidp : id = p.id
  · -- Its own entry holds no copy of the other one.
    subst hidp
    rw [get?_put_of_ne _ hne, get?_put_self, get?_put_self, Option.map_some,
      Param.replaceDescendant_of_children_eq_nil hp]
  · by_cases hidq : id = q.id
    · subst hidq
      rw [get?_put_of_ne _ hidp, get?_put_self, get?_put_self, Option.map_some,
        Param.replaceDescendant_of_children_eq_nil hq]
    · rw [get?_put_of_ne _ hidq, get?_put_of_ne _ hidp, get?_put_of_ne _ hidp,
        get?_put_of_ne _ hidq, Option.map_map, Option.map_map]
      cases hget : r.get? id with
      | none => rfl
      | some x =>
        rw [h.get?_eq] at hget
        obtain rfl := Forest.id_eq_of_node?_eq_some hget
        have hnodup := Forest.nodup_ids_of_mem_nodes h.nodup_ids
          (Forest.mem_nodes_of_node?_eq_some hget)
        exact congrArg some (Param.replaceDescendant_comm hnodup hidp hidq hp hq hne)

/-! ### Values at ids -/

/-- What the entry of an id becomes by a value; none if there is no value or it is not taken. -/
def taken? (r : Registry) (id : ParamId) (val? : Option Value) : Option Param :=
  val?.bind fun val => (r.get? id).bind (·.setValue? val)

/-- The registry with a value at an id; as it is if there is no value or it is not taken. -/
def store (r : Registry) (id : ParamId) (val? : Option Value) : Registry :=
  (val?.bind (r.setValue? id)).getD r

theorem setValue?_eq_map_put (r : Registry) (id : ParamId) (val : Value) :
    r.setValue? id val = (r.taken? id (some val)).map r.put := by
  rw [taken?, Option.bind_some, Option.map_bind, Function.comp_def]
  simp only [Option.map_eq_bind]
  rfl

theorem store_eq_put (r : Registry) (id : ParamId) (val? : Option Value) :
    r.store id val? = ((r.taken? id val?).map r.put).getD r := by
  cases val? with
  | none => rfl
  | some val => rw [store, Option.bind_some, setValue?_eq_map_put]

theorem Mirrors.of_taken? (h : r.Mirrors f) (htaken : r.taken? id val? = some p) :
    p.id = id ∧ p.children = [] := by
  obtain ⟨val, -, hval⟩ := Option.bind_eq_some_iff.mp htaken
  obtain ⟨q, hq, hset⟩ := Option.bind_eq_some_iff.mp hval
  obtain ⟨hid, hchildren⟩ := Forest.setValue?_eq_some hset
  rw [h.get?_eq] at hq
  exact ⟨hid.trans (Forest.id_eq_of_node?_eq_some hq), hchildren⟩

/-- The entry of another id has at most exchanged a copy. -/
theorem Mirrors.get?_store (h : r.Mirrors f) (hne : b ≠ a) (val? : Option Value) :
    (∃ p, (r.store a val?).get? b = (r.get? b).map (·.replaceDescendant p)) ∨
      (r.store a val?).get? b = r.get? b := by
  rw [store_eq_put]
  cases htaken : r.taken? a val? with
  | none => exact Or.inr rfl
  | some p =>
    have hid := (h.of_taken? htaken).1
    exact Or.inl ⟨p, get?_put_of_ne r (hid ▸ hne)⟩

theorem Mirrors.get?_store_eq_none_iff (h : r.Mirrors f) (hne : b ≠ a) (val? : Option Value) :
    (r.store a val?).get? b = none ↔ r.get? b = none := by
  rcases h.get?_store hne val? with ⟨p, heq⟩ | heq
  · rw [heq, Option.map_eq_none_iff]
  · rw [heq]

/-- Whether a value is taken, and to what effect, does not depend on the values of other ids. -/
theorem Mirrors.taken?_store (h : r.Mirrors f) (hne : b ≠ a) (val? wal? : Option Value) :
    (r.store a val?).taken? b wal? = r.taken? b wal? := by
  rcases h.get?_store hne val? with ⟨p, heq⟩ | heq
  · simp only [taken?, heq, Option.bind_map, Function.comp_def, Param.setValue?_replaceDescendant]
  · simp only [taken?, heq]

/-- Values of different ids are stored in either order. -/
theorem Mirrors.store_comm (h : r.Mirrors f) (hne : a ≠ b) (val? wal? : Option Value) :
    (r.store a val?).store b wal? = (r.store b wal?).store a val? := by
  rw [store_eq_put (r.store a val?), store_eq_put (r.store b wal?), h.taken?_store hne.symm,
    h.taken?_store hne, store_eq_put r a, store_eq_put r b]
  cases hp : r.taken? a val? with
  | none => rfl
  | some p =>
    cases hq : r.taken? b wal? with
    | none => rfl
    | some q =>
      obtain ⟨hpid, hpleaf⟩ := h.of_taken? hp
      obtain ⟨hqid, hqleaf⟩ := h.of_taken? hq
      have hids : p.id ≠ q.id := by rwa [hpid, hqid]
      exact h.put_comm hpleaf hqleaf hids

end Registry

end LiveTuner
