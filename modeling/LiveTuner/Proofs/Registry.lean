import LiveTuner.Proofs.Forest
import LiveTuner.Registry

/-!
# The registry and the forest of definitions

The registry stores an id many times: as an entry of its own and as a copy within the entry of every
group above it. Whatever definitions and values have come in, it is the same as the forest in which
each id stands once: the keys are the ids of the forest, and the entry of an id is the tree that
stands there.

## Main definitions

* `Registry.Holds` — an id is below another one, as far as the registry knows
* `Registry.Satisfies` — something holds of every entry
* `Registry.IsKeyed` — every entry is a definition of the id that it is the entry of
* `Registry.Mirrors` — the registry has the trees of a forest as its entries
* `Registry.Call`, `Registry.call`, `Forest.call` — a call, and what it does on either side
* `Registry.Admits` — every definition of some calls fits what the registry knows by then

## Main results

* `Registry.get?_flattenOne_of_mem`, `Registry.get?_flattenOne_of_notMem` — the entries after one
  definition has come in, whatever the registry was
* `Registry.Satisfies.flatten`, `Registry.Satisfies.setValue?` — what is kept by either change
* `Registry.Mirrors.flattenOne`, `Registry.Mirrors.setValue?` — either change keeps the two alike
* `Registry.Mirrors.foldl_call` — so does any sequence of calls
* `Registry.get?_eq_node?_of_admits` — what this says of the entries after every step
-/

namespace LiveTuner

namespace Registry

variable {r : Registry} {f : Forest} {p q x : Param} {id : ParamId} {val : Value}

/-! ### Entries -/

@[simp] theorem get?_empty (id : ParamId) : empty.get? id = none := by simp [empty, get?]

theorem get?_insert (r : Registry) (p : Param) (id : ParamId) :
    (r.insert p).get? id = if p.id = id then some p else r.get? id := by
  simp [insert, get?, Std.ExtTreeMap.getElem?_insert]

theorem get?_erase (r : Registry) (i id : ParamId) :
    (r.erase i).get? id = if i = id then none else r.get? id := by
  simp [erase, get?, Std.ExtTreeMap.getElem?_erase]

theorem get?_patchCopies (r : Registry) (p : Param) (id : ParamId) :
    (r.patchCopies p).get? id =
      (r.get? id).map fun entry => if id = p.id then entry else entry.replaceDescendant p := by
  simp [patchCopies, get?]

theorem get?_foldl_erase (ids : List ParamId) (r : Registry) (id : ParamId) :
    (ids.foldl erase r).get? id = if id ∈ ids then none else r.get? id := by
  induction ids generalizing r with
  | nil => simp
  | cons i rest ih =>
    rw [List.foldl_cons, ih, get?_erase]
    by_cases hid : i = id
    · simp [hid]
    · simp [hid, Ne.symm hid]

theorem insertAll_eq (r : Registry) (params : List (String × Param)) :
    r.insertAll params = (params.map Prod.snd).foldl insertTree r := by
  induction params generalizing r with
  | nil => rfl
  | cons member rest ih =>
    rw [insertAll, ih]
    rfl

/-- A definition is entered after everything below it. -/
theorem insertTree_eq (r : Registry) (p : Param) :
    r.insertTree p = (p.children.foldl insertTree r).insert p := by
  cases p with
  | leaf i name control => rfl
  | group i name params hidden => rw [insertTree, insertAll_eq, Param.children_group]

theorem get?_foldl_insertTree_of_notMem (h : id ∉ f.ids)
    (hf : ∀ p ∈ f, ∀ r : Registry, id ∉ p.ids → (r.insertTree p).get? id = r.get? id) :
    (f.foldl insertTree r).get? id = r.get? id := by
  induction f generalizing r with
  | nil => rfl
  | cons p rest ih =>
    rw [Forest.ids, Forest.nodes, List.flatMap_cons, List.map_append, Param.map_id_nodes,
      List.mem_append, not_or] at h
    rw [List.foldl_cons, ih h.2 fun q hq => hf q (List.mem_cons_of_mem _ hq),
      hf p List.mem_cons_self r h.1]

/-- Entering a definition leaves the entries of all other ids alone. -/
theorem get?_insertTree_of_notMem (h : id ∉ p.ids) :
    (r.insertTree p).get? id = r.get? id := by
  induction p using Param.induction generalizing r with
  | leaf i name control =>
    have hi : i ≠ id := fun hi => h (hi ▸ Param.id_mem_ids (.leaf i name control))
    rw [insertTree_eq, get?_insert, Param.id_leaf, if_neg hi]
    rfl
  | group i name params hidden ih =>
    have hbelow : id ∉ Forest.ids (Param.group i name params hidden).children := by
      rw [Forest.ids, Forest.nodes, ← Param.descendantIds_eq]
      exact fun hid => h (List.mem_cons_of_mem _ hid)
    have hi : i ≠ id := fun hi => h (hi ▸ Param.id_mem_ids (.group i name params hidden))
    rw [insertTree_eq, get?_insert, Param.id_group, if_neg hi,
      get?_foldl_insertTree_of_notMem hbelow fun q hq r => ih q hq]

theorem get?_foldl_insertTree (h : f.ids.Nodup) (hq : q ∈ f.nodes)
    (hf : ∀ p ∈ f, ∀ r : Registry, p.ids.Nodup → q ∈ p.nodes →
      (r.insertTree p).get? q.id = some q) :
    (f.foldl insertTree r).get? q.id = some q := by
  induction f generalizing r with
  | nil => exact absurd hq List.not_mem_nil
  | cons p rest ih =>
    rw [Forest.ids, Forest.nodes, List.flatMap_cons, List.map_append, Param.map_id_nodes] at h
    obtain ⟨hp, hrest, hdisj⟩ := List.nodup_append.mp h
    rw [Forest.nodes, List.flatMap_cons, List.mem_append] at hq
    rw [List.foldl_cons]
    rcases hq with hq | hq
    · -- The trees entered later do not know the id, and leave its entry alone.
      have hout : q.id ∉ Forest.ids rest := fun hout =>
        hdisj _ (Param.mem_ids_of_mem_nodes hq) _ hout rfl
      rw [get?_foldl_insertTree_of_notMem hout fun _ _ _ => get?_insertTree_of_notMem]
      exact hf p List.mem_cons_self r hp hq
    · exact ih hrest hq fun p' hp' => hf p' (List.mem_cons_of_mem _ hp')

/-- Entering a definition makes every node of it the entry of its id. -/
theorem get?_insertTree (h : p.ids.Nodup) (hq : q ∈ p.nodes) :
    (r.insertTree p).get? q.id = some q := by
  induction p using Param.induction generalizing r with
  | leaf i name control =>
    obtain rfl : q = .leaf i name control := by simpa [Param.nodes] using hq
    rw [insertTree_eq, get?_insert, if_pos rfl]
  | group i name params hidden ih =>
    rw [insertTree_eq, get?_insert]
    split
    · next hid => rw [Param.eq_of_id_eq h (Param.self_mem_nodes _) hq hid]
    · next hid =>
      obtain rfl | ⟨c, hc, hqc⟩ := Param.mem_nodes_iff.mp hq
      · exact absurd rfl hid
      · exact get?_foldl_insertTree (Param.nodup_map_id_flatMap_children h)
          (List.mem_flatMap.mpr ⟨c, hc, hqc⟩) fun p hp r hp' hqp => ih p hp hp' hqp

/-! ### Taking a definition in -/

/-- An id is below another one, as far as the registry knows. -/
def Holds (r : Registry) (g id : ParamId) : Prop := ∃ p ∈ r.get? g, id ∈ p.descendantIds

instance (r : Registry) (g id : ParamId) : Decidable (r.Holds g id) := by
  unfold Holds
  infer_instance

/-- A definition that comes in drops what was below its id and no longer is. -/
theorem get?_dropStale (r : Registry) (p : Param) (id : ParamId) :
    (r.dropStale p).get? id =
      if r.Holds p.id id ∧ id ∉ p.descendantIds then none else r.get? id := by
  cases hp : r.get? p.id with
  | none =>
    have hheld : ¬ r.Holds p.id id := by simp [Holds, hp]
    simp [dropStale, hp, hheld]
  | some previous =>
    have hheld : r.Holds p.id id ↔ id ∈ previous.descendantIds := by simp [Holds, hp]
    simp [dropStale, hp, hheld, get?_foldl_erase]

/-- A definition that comes in becomes the entry of its id, and so does everything below it. -/
theorem get?_flattenOne_of_mem (h : p.ids.Nodup) (hq : q ∈ p.nodes) :
    (r.flattenOne p).get? q.id = some q := by
  rw [flattenOne, get?_patchCopies, get?_insertTree h hq, Option.map_some]
  split
  · rfl
  · next hne =>
    -- Below the definition no node has a copy of it.
    rw [Param.replaceDescendant_eq (Param.nodup_ids_of_mem_nodes h hq) hne,
      Param.exchange_of_notMem (Param.notMem_ids_of_ne h hq hne)]

/-- Any other entry is dropped if it was below the id of the definition, and otherwise exchanges
its copy of the definition. -/
theorem get?_flattenOne_of_notMem (h : id ∉ p.ids) :
    (r.flattenOne p).get? id =
      if r.Holds p.id id then none else (r.get? id).map (·.replaceDescendant p) := by
  rw [Param.ids_eq_cons, List.mem_cons, not_or] at h
  rw [flattenOne, get?_patchCopies, get?_insertTree_of_notMem, get?_dropStale]
  · by_cases hheld : r.Holds p.id id
    · simp [hheld, h.2]
    · simp [hheld, h.1]
  · simpa [Param.ids_eq_cons] using h

/-! ### What holds of every entry -/

/-- `P` holds of every entry and the id that it is the entry of. -/
def Satisfies (r : Registry) (P : ParamId → Param → Prop) : Prop :=
  ∀ id p, r.get? id = some p → P id p

namespace Satisfies

variable {P : ParamId → Param → Prop}

theorem empty (P : ParamId → Param → Prop) : Registry.empty.Satisfies P :=
  fun id p hp => by simp at hp

theorem insert (h : r.Satisfies P) (hp : P p.id p) : (r.insert p).Satisfies P := by
  intro id q hq
  rw [get?_insert] at hq
  split at hq
  · next hid =>
    obtain rfl := Option.some.inj hq
    exact hid ▸ hp
  · exact h id q hq

theorem patchCopies (h : r.Satisfies P)
    (hP : ∀ id entry, P id entry → P id (entry.replaceDescendant p)) :
    (r.patchCopies p).Satisfies P := by
  intro id q hq
  rw [get?_patchCopies] at hq
  obtain ⟨entry, hentry, rfl⟩ := Option.map_eq_some_iff.mp hq
  split
  · exact h id entry hentry
  · exact hP id entry (h id entry hentry)

theorem dropStale (h : r.Satisfies P) (p : Param) : (r.dropStale p).Satisfies P := by
  intro id q hq
  rw [get?_dropStale] at hq
  split at hq
  · cases hq
  · exact h id q hq

theorem insertTree (h : r.Satisfies P) (hp : ∀ q ∈ p.nodes, P q.id q) :
    (r.insertTree p).Satisfies P := by
  induction p using Param.induction generalizing r with
  | leaf i name control =>
    rw [insertTree_eq]
    exact h.insert (hp _ (Param.self_mem_nodes _))
  | group i name params hidden ih =>
    rw [insertTree_eq]
    refine Satisfies.insert ?_ (hp _ (Param.self_mem_nodes _))
    have hmembers : ∀ r' : Registry, r'.Satisfies P → ∀ q ∈ params.map Prod.snd,
        (r'.insertTree q).Satisfies P := fun r' hr' q hq =>
      ih q hq hr' fun x hx => hp x (Param.mem_nodes_iff.mpr (Or.inr ⟨q, hq, hx⟩))
    exact List.foldlRecOn (motive := (Satisfies · P)) _ insertTree h hmembers

/-- What holds of definitions and all below them holds of the entries once they have come in, if it
is kept where copies of them are exchanged. -/
theorem flatten {ps : List Param} (h : r.Satisfies P) (hps : ∀ p ∈ ps, ∀ q ∈ p.nodes, P q.id q)
    (hP : ∀ p ∈ ps, ∀ id entry, P id entry → P id (entry.replaceDescendant p)) :
    (r.flatten ps).Satisfies P :=
  List.foldlRecOn (motive := (Satisfies · P)) ps flattenOne h fun _ hr p hp =>
    ((dropStale hr p).insertTree (hps p hp)).patchCopies (hP p hp)

theorem setValue? {r' : Registry} (h : r.Satisfies P)
    (hP : ∀ p p', P id p → p.setValue? val = some p' →
      P p'.id p' ∧ ∀ i entry, P i entry → P i (entry.replaceDescendant p'))
    (hset : r.setValue? id val = some r') : r'.Satisfies P := by
  obtain ⟨p, hp, hset⟩ := Option.bind_eq_some_iff.mp hset
  obtain ⟨p', hp', hset⟩ := Option.bind_eq_some_iff.mp hset
  obtain rfl := Option.some.inj hset
  obtain ⟨hentry, hcopies⟩ := hP p p' (h id p hp) hp'
  exact (h.insert hentry).patchCopies hcopies

end Satisfies

/-- Every entry is a definition of the id that it is the entry of. -/
def IsKeyed (r : Registry) : Prop := ∀ id p, r.get? id = some p → p.id = id

theorem isKeyed_empty : empty.IsKeyed := Satisfies.empty _

/-- Whatever definitions come in, they become entries of their own ids. -/
theorem IsKeyed.flatten (h : r.IsKeyed) (ps : List Param) : (r.flatten ps).IsKeyed :=
  Satisfies.flatten h (fun _ _ _ _ => rfl) fun p _ _ _ hid => by
    rw [Param.id_replaceDescendant, hid]

theorem IsKeyed.setValue? {r' : Registry} (h : r.IsKeyed) (hset : r.setValue? id val = some r') :
    r'.IsKeyed :=
  Satisfies.setValue? h (fun _ _ _ _ => ⟨rfl, fun _ _ hid => by
    rw [Param.id_replaceDescendant, hid]⟩) hset

/-! ### The mirror -/

/-- The entries of the registry are the trees of a forest in which no id stands twice. -/
structure Mirrors (r : Registry) (f : Forest) : Prop where
  /-- No id stands twice. -/
  nodup_ids : f.ids.Nodup
  /-- The entry of an id is the tree that stands there. -/
  get?_eq : ∀ id, r.get? id = f.node? id

theorem mirrors_empty : empty.Mirrors [] := ⟨List.nodup_nil, fun id => get?_empty id⟩

theorem Mirrors.get?_id (h : r.Mirrors f) (hq : q ∈ f.nodes) : r.get? q.id = some q := by
  rw [h.get?_eq, Forest.node?_id h.nodup_ids hq]

theorem Mirrors.mem_entries_iff (h : r.Mirrors f) : id ∈ r.entries ↔ id ∈ f.ids := by
  rw [← not_iff_not, ← Forest.node?_eq_none_iff, ← h.get?_eq, get?,
    Std.ExtTreeMap.mem_iff_isSome_getElem?, Option.not_isSome_iff_eq_none]

/-- What the registry holds below an id is what stands below it. -/
theorem Mirrors.holds_iff {g : ParamId} (h : r.Mirrors f) (hne : id ≠ g) :
    r.Holds g id ↔ id ∈ f.idsAt g := by
  rw [Holds, h.get?_eq, Forest.idsAt]
  cases hq : f.node? g with
  | none => simp
  | some q =>
    have hqid : q.id = g := Forest.id_eq_of_node?_eq_some hq
    simp [Param.ids_eq_cons, hqid, hne]

/-- A definition that fits comes in: the registry goes on being the forest. -/
theorem Mirrors.flattenOne (h : r.Mirrors f) (hp : f.Fits p) :
    (r.flattenOne p).Mirrors (f.define p) := by
  have hnodup := Forest.nodup_ids_define h.nodup_ids hp
  refine ⟨hnodup, fun id => ?_⟩
  by_cases hid : id ∈ p.ids
  · -- An id of the definition: the entry is the node there.
    obtain ⟨q, hq, rfl⟩ := Param.mem_ids_iff.mp hid
    rw [get?_flattenOne_of_mem hp.1 hq, Forest.node?_id hnodup
      ((Forest.mem_nodes_define h.nodup_ids).mpr (Or.inl hq))]
  · have hne : id ≠ p.id := fun he => hid (he ▸ Param.id_mem_ids p)
    rw [get?_flattenOne_of_notMem hid, h.get?_eq]
    by_cases hat : id ∈ f.idsAt p.id
    · -- An id that only the old tree had: the entry is dropped, as is the node.
      rw [if_pos ((h.holds_iff hne).mpr hat)]
      refine (Forest.node?_eq_none_iff.mpr ?_).symm
      rw [Forest.mem_ids_define h.nodup_ids]
      tauto
    · -- Any other id: entry and node exchange the same copy.
      rw [if_neg (mt (h.holds_iff hne).mp hat)]
      cases hy : f.node? id with
      | none =>
        refine (Forest.node?_eq_none_iff.mpr ?_).symm
        rw [Forest.mem_ids_define h.nodup_ids, ← not_not (a := id ∈ f.ids),
          ← Forest.node?_eq_none_iff]
        tauto
      | some y =>
        obtain ⟨hymem, rfl⟩ := (Forest.node?_eq_some_iff h.nodup_ids).mp hy
        have hnode : (f.define p).node? (y.exchange p).id = some (y.exchange p) :=
          Forest.node?_id hnodup ((Forest.mem_nodes_define h.nodup_ids).mpr
            (Or.inr ⟨y, hymem, hat, rfl⟩))
        rw [Param.exchange_id] at hnode
        rw [hnode, Option.map_some,
          Param.replaceDescendant_eq (Forest.nodup_ids_of_mem_nodes h.nodup_ids hymem) hne]

/-- A value write is an entry coming in anew: the one with the new value. -/
theorem setValue?_eq_flattenOne {p' : Param} (hp : r.get? id = some p)
    (h : p.setValue? val = some p') (hid : p.id = id) :
    r.setValue? id val = some (r.flattenOne p') := by
  obtain ⟨hid', hchildren⟩ := Forest.setValue?_eq_some h
  -- Nothing is below a parameter that takes a value, so nothing can be stale.
  have hbelow : p.descendantIds = [] := by
    cases p with
    | leaf i name control => rfl
    | group i name params hidden => exact absurd h (by simp [Param.setValue?])
  have hdrop : r.dropStale p' = r := by
    simp [dropStale, hid', hid, hp, hbelow]
  rw [Registry.setValue?, flattenOne, hdrop, insertTree_eq, hchildren]
  simp [hp, h]

/-- The registry and the forest take the same values, and go on being the same. -/
theorem Mirrors.setValue? (h : r.Mirrors f) (id : ParamId) (val : Value) :
    Option.Rel Mirrors (r.setValue? id val) (f.setValue? id val) := by
  cases hp : f.node? id with
  | none =>
    have hr : r.get? id = none := (h.get?_eq id).trans hp
    simp [Registry.setValue?, Forest.setValue?, hr, hp]
  | some p =>
    have hr : r.get? id = some p := (h.get?_eq id).trans hp
    cases hp' : p.setValue? val with
    | none => simp [Registry.setValue?, Forest.setValue?, hr, hp, hp']
    | some p' =>
      rw [setValue?_eq_flattenOne hr hp' (Forest.id_eq_of_node?_eq_some hp),
        Forest.setValue?_eq_define hp hp']
      exact .some (h.flattenOne (Forest.fits_of_children_eq_nil (Forest.setValue?_eq_some hp').2))

/-! ### Calls -/

/-- A call of the registry. -/
inductive Call where
  /-- Definitions come in. -/
  | flatten (params : List Param)
  /-- The value of an id is to change. -/
  | setValue (id : ParamId) (val : Value)

/-- The registry after a call; a value that is not taken changes nothing. -/
def call (r : Registry) : Call → Registry
  | .flatten params => r.flatten params
  | .setValue id val => (r.setValue? id val).getD r

/-- The registry after calls, from the empty one. -/
def ofCalls (calls : List Call) : Registry := calls.foldl call empty

/-- A definition repeats no id, and what is below it is new to the registry or was below its id
before. -/
def Accepts (r : Registry) (p : Param) : Prop :=
  p.ids.Nodup ∧ ∀ id ∈ p.descendantIds, r.get? id = none ∨ ∃ q ∈ r.get? p.id, id ∈ q.descendantIds

instance (r : Registry) (p : Param) : Decidable (r.Accepts p) := by
  unfold Accepts
  infer_instance

/-- The registry accepts definitions that come in one after the other. -/
def AcceptsAll (r : Registry) : List Param → Prop
  | [] => True
  | p :: rest => r.Accepts p ∧ (r.flattenOne p).AcceptsAll rest

instance decidableAcceptsAll : (r : Registry) → (ps : List Param) → Decidable (r.AcceptsAll ps)
  | _, [] => .isTrue trivial
  | r, p :: rest => @instDecidableAnd _ _ _ (decidableAcceptsAll (r.flattenOne p) rest)

/-- The registry accepts every definition of some calls at its time. -/
def Admits (r : Registry) : List Call → Prop
  | [] => True
  | .flatten params :: rest => r.AcceptsAll params ∧ (r.flatten params).Admits rest
  | .setValue id val :: rest => (r.call (.setValue id val)).Admits rest

instance decidableAdmits : (r : Registry) → (calls : List Call) → Decidable (r.Admits calls)
  | _, [] => .isTrue trivial
  | r, .flatten params :: rest => @instDecidableAnd _ _ _ (decidableAdmits (r.flatten params) rest)
  | r, .setValue id val :: rest => decidableAdmits (r.call (.setValue id val)) rest

end Registry

/-- The forest after a call of the registry. -/
def Forest.call (f : Forest) : Registry.Call → Forest
  | .flatten params => params.foldl define f
  | .setValue id val => (f.setValue? id val).getD f

/-- The forest after calls of the registry, from the empty one. -/
def Forest.ofCalls (calls : List Registry.Call) : Forest := calls.foldl call []

namespace Registry

variable {r : Registry} {f : Forest} {p : Param} {calls : List Call}

theorem Mirrors.fits (h : r.Mirrors f) (hp : r.Accepts p) : f.Fits p := by
  refine ⟨hp.1, fun id hid hmem => ?_⟩
  rcases hp.2 id hid with hnone | ⟨q, hq, hbelow⟩
  · rw [h.get?_eq, Forest.node?_eq_none_iff] at hnone
    exact absurd hmem hnone
  · rw [h.get?_eq, Option.mem_def] at hq
    rw [Forest.idsAt, hq]
    exact List.mem_cons_of_mem _ hbelow

theorem Mirrors.flatten {params : List Param} (h : r.Mirrors f) (hparams : r.AcceptsAll params) :
    (r.flatten params).Mirrors (params.foldl Forest.define f) := by
  induction params generalizing r f with
  | nil => exact h
  | cons p rest ih => exact ih (h.flattenOne (h.fits hparams.1)) hparams.2

/-- Definitions of new ids become new trees. -/
theorem Mirrors.flatten_append {params : List Param} (h : r.Mirrors f)
    (hparams : (f ++ params : Forest).ids.Nodup) : (r.flatten params).Mirrors (f ++ params) := by
  induction params generalizing r f with
  | nil => rwa [List.append_nil]
  | cons p rest ih =>
    obtain ⟨hp, hnew⟩ := Forest.nodup_ids_append_cons hparams
    have hfits : f.Fits p :=
      ⟨hp, fun id hid hmem => absurd hmem (hnew id (List.mem_cons_of_mem _ hid))⟩
    have hdefine : f.define p = f ++ [p] := if_neg (hnew p.id (Param.id_mem_ids p))
    rw [List.append_cons] at hparams ⊢
    rw [← hdefine] at hparams ⊢
    exact ih (h.flattenOne hfits) hparams

theorem Mirrors.call_setValue (h : r.Mirrors f) (id : ParamId) (val : Value) :
    (r.call (.setValue id val)).Mirrors (f.call (.setValue id val)) := by
  have hrel := h.setValue? id val
  rw [Registry.call, Forest.call]
  generalize r.setValue? id val = after at hrel ⊢
  generalize f.setValue? id val = after' at hrel ⊢
  cases hrel with
  | none => exact h
  | some hsome => exact hsome

/-- Any admitted calls lead to a registry that is the forest they lead to. -/
theorem Mirrors.foldl_call (h : r.Mirrors f) (hcalls : r.Admits calls) :
    (calls.foldl call r).Mirrors (calls.foldl Forest.call f) := by
  induction calls generalizing r f with
  | nil => exact h
  | cons c rest ih =>
    cases c with
    | flatten params => exact ih (h.flatten hcalls.1) hcalls.2
    | setValue id val => exact ih (h.call_setValue id val) hcalls

theorem admits_of_past {past : List Call} (hpast : past <+: calls) (h : r.Admits calls) :
    r.Admits past := by
  induction past generalizing r calls with
  | nil => trivial
  | cons c rest ih =>
    obtain ⟨later, rfl⟩ := hpast
    cases c with
    | flatten params => exact ⟨h.1, ih (List.prefix_append rest later) h.2⟩
    | setValue id val => exact ih (List.prefix_append rest later) h

/-- After every step of any calls of which each definition fits at its time, the keys of the
registry are the ids of the forest and every entry is the full tree at its id. So a copy of an id
within any entry is the entry of that id; and a value that is not taken changes nothing. -/
theorem get?_eq_node?_of_admits (h : empty.Admits calls) {past : List Call}
    (hpast : past <+: calls) :
    (Forest.ofCalls past).ids.Nodup ∧
    (∀ id, id ∈ (ofCalls past).entries ↔ id ∈ (Forest.ofCalls past).ids) ∧
    (∀ id, (ofCalls past).get? id = (Forest.ofCalls past).node? id) ∧
    (∀ id p q, (ofCalls past).get? id = some p → q ∈ p.nodes → (ofCalls past).get? q.id = some q) ∧
    ∀ id val,
      ((ofCalls past).setValue? id val = none ↔ (Forest.ofCalls past).setValue? id val = none) ∧
      ((ofCalls past).setValue? id val = none →
        (ofCalls past).call (.setValue id val) = ofCalls past ∧
        (Forest.ofCalls past).call (.setValue id val) = Forest.ofCalls past) := by
  have hm : (ofCalls past).Mirrors (Forest.ofCalls past) :=
    mirrors_empty.foldl_call (admits_of_past hpast h)
  refine ⟨hm.nodup_ids, fun id => hm.mem_entries_iff, hm.get?_eq, ?_, fun id val => ?_⟩
  · intro id p q hp hq
    rw [hm.get?_eq] at hp
    exact hm.get?_id (Forest.mem_nodes_trans (Forest.mem_nodes_of_node?_eq_some hp) hq)
  · have hiff : (ofCalls past).setValue? id val = none ↔
        (Forest.ofCalls past).setValue? id val = none := by
      have hrel := hm.setValue? id val
      generalize (ofCalls past).setValue? id val = after at hrel ⊢
      generalize (Forest.ofCalls past).setValue? id val = after' at hrel ⊢
      cases hrel with
      | none => simp
      | some _ => simp
    refine ⟨hiff, fun hnone => ⟨?_, ?_⟩⟩
    · rw [call, hnone, Option.getD_none]
    · rw [Forest.call, hiff.mp hnone, Option.getD_none]

/-! ### A run -/

/-- A group within a group. -/
def sampleTree : Param :=
  .group ⟨1⟩ "lamp" [("on", .leaf ⟨2⟩ "on" (.flag true)),
    ("shade", .group ⟨3⟩ "shade" [("tint", .leaf ⟨4⟩ "tint" (.text "red")),
      ("edge", .group ⟨5⟩ "edge" [("soft", .leaf ⟨6⟩ "soft" (.flag true))] [])] ["tint"])] []

/-- Another definition of the inner group, which drops two ids and brings a new one. -/
def sampleChange : Param :=
  .group ⟨3⟩ "shade" [("tint", .leaf ⟨4⟩ "tint" (.text "blue")),
    ("fold", .leaf ⟨7⟩ "fold" (.flag false))] []

/-- A definition, a value, and a redefinition together with a new definition. -/
def sampleCalls : List Call :=
  [.flatten [sampleTree], .setValue ⟨6⟩ (.bool false),
    .flatten [sampleChange, .leaf ⟨8⟩ "fan" (.flag true)]]

theorem get?_ofCalls_sampleCalls :
    empty.Admits sampleCalls ∧ sampleCalls <+: sampleCalls ∧
    (∀ id, (ofCalls sampleCalls).get? id = (Forest.ofCalls sampleCalls).node? id) ∧
    (Forest.ofCalls sampleCalls).ids = [⟨1⟩, ⟨2⟩, ⟨3⟩, ⟨4⟩, ⟨7⟩, ⟨8⟩] :=
  have hcalls : empty.Admits sampleCalls := by decide
  have hrun := get?_eq_node?_of_admits hcalls (List.prefix_refl _)
  ⟨hcalls, List.prefix_refl _, hrun.2.2.1, by decide⟩

end Registry

end LiveTuner
