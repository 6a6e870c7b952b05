import LiveTuner.Proofs.Param.Nodes

/-!
# Three walks below a parameter

Three walks go through what is below a parameter: one lists the ids, one looks for an id, and one
looks for the copy of a definition and exchanges it. They are written one by one, and they have to
find the same. Here they are compared for all parameters, with ids that may be repeated on any
level.

What the third walk leaves is told by places. A place is given by the indices of the members on the
way down to a node, so places go depth first in their lexicographic order. The walk exchanges what
stands at the first place of the id and touches nothing at other places, apart from the groups on
the way, which keep everything of their own. Without repeated ids the first place is the only one.

The exchange is a function here, which has no parameter to offer where it finds nothing. Carried out
in place it walks through members in vain before it finds the copy, or instead of finding it, and
each of them has to be left as it was. So it is written out in place as well.

## Main definitions

* `Param.at?` — the node at a place
* `Param.IsPlaceOf`, `Param.IsFirstPlace` — a node of an id stands at a place below
* `Param.ExchangedAt` — a parameter in which the node at a place has been exchanged
* `Param.replaceInPlace` — the exchange, step by step

## Main results

* `Param.exists_place_of_replaceDescendant?` — what an exchange leaves
* `Param.walks_agree` — the three walks find the same
-/

namespace LiveTuner

namespace Param

variable {p q r x y : Param} {i : ParamId} {name key : String} {control : Control}
  {params params' : List (String × Param)} {hidden : List String} {index : Nat}
  {place place' other : List Nat}

/-! ### Whether there is a copy -/

theorem isSome_replaceDescendant?_iff :
    (p.replaceDescendant? r).isSome = true ↔ r.id ∈ p.descendantIds := by
  rw [← not_iff_not, Bool.not_eq_true, Option.isSome_eq_false_iff, Option.isNone_iff_eq_none,
    replaceDescendant?_eq_none_iff]

/-! ### In place -/

mutual

/-- The exchange carried out in place: whether there was a copy, and what is left of the
parameter. -/
def replaceInPlace (r : Param) : Param → Bool × Param
  | leaf id name control => (false, leaf id name control)
  | group id name params hidden =>
    let (found, params) := replaceAmongInPlace r params
    (found, group id name params hidden)

/-- The exchange carried out in place among members. One that is walked through in vain is left as
the walk through it leaves it. -/
def replaceAmongInPlace (r : Param) : List (String × Param) → Bool × List (String × Param)
  | [] => (false, [])
  | (key, p) :: rest =>
    if p.id = r.id then (true, (key, r) :: rest)
    else
      let (found, p) := replaceInPlace r p
      if found then (true, (key, p) :: rest)
      else
        let (found, rest) := replaceAmongInPlace r rest
        (found, (key, p) :: rest)

end

theorem replaceAmongInPlace_eq_of
    (h : ∀ p ∈ params.map Prod.snd,
      replaceInPlace r p = ((p.replaceDescendant? r).isSome, p.replaceDescendant r)) :
    replaceAmongInPlace r params =
      ((replaceAmong? params r).isSome, (replaceAmong? params r).getD params) := by
  induction params with
  | nil => rfl
  | cons member rest ih =>
    obtain ⟨key, p⟩ := member
    obtain ⟨hp, hrest⟩ := List.forall_mem_cons.mp h
    rw [replaceAmongInPlace, replaceAmong?, hp, ih hrest, replaceDescendant]
    by_cases hid : p.id = r.id
    · simp [hid]
    · cases p.replaceDescendant? r with
      | some q => simp [hid]
      | none => cases replaceAmong? rest r <;> simp [hid]

/-- In place, the exchange comes to what the function yields, and to no change where that yields
nothing. -/
theorem replaceInPlace_eq (p r : Param) :
    replaceInPlace r p = ((p.replaceDescendant? r).isSome, p.replaceDescendant r) := by
  induction p using Param.induction with
  | leaf j name control => rfl
  | group j name params hidden ih =>
    rw [replaceInPlace, replaceAmongInPlace_eq_of ih, replaceDescendant, replaceDescendant?]
    cases replaceAmong? params r <;> rfl

/-! ### Places -/

/-- The node at a place. -/
def at? : Param → List Nat → Option Param
  | p, [] => some p
  | p, index :: rest => p.children[index]?.bind (·.at? rest)

/-- A node of the id stands at the place, below the parameter. -/
def IsPlaceOf (p : Param) (i : ParamId) (place : List Nat) : Prop :=
  place ≠ [] ∧ ∃ q, p.at? place = some q ∧ q.id = i

/-- The place is the first, depth first, at which a node of the id stands below the parameter. -/
def IsFirstPlace (p : Param) (i : ParamId) (place : List Nat) : Prop :=
  p.IsPlaceOf i place ∧ ∀ other, p.IsPlaceOf i other → ¬ other < place

/-- Two groups agree in all but the parameters under their attributes. -/
def SameShell (g g' : Param) : Prop :=
  ∃ id name params params' hidden, g = group id name params hidden ∧
    g' = group id name params' hidden ∧ params'.map Prod.fst = params.map Prod.fst

/-- The parameter `q` is `p` with `r` in place of the node at a place. -/
structure ExchangedAt (p : Param) (place : List Nat) (r q : Param) : Prop where
  /-- At the place stands `r`. -/
  at_place : q.at? place = some r
  /-- What stands neither above nor below the place is as it was. -/
  beside : ∀ other, ¬ place <+: other → ¬ other <+: place → q.at? other = p.at? other
  /-- What stands above the place has kept everything of its own. -/
  above : ∀ other, other <+: place → other ≠ place →
    ∃ g g', p.at? other = some g ∧ q.at? other = some g' ∧ g.SameShell g'

@[simp] theorem at?_nil (p : Param) : p.at? [] = some p := rfl

theorem at?_cons_eq_some_iff :
    p.at? (index :: place) = some q ↔ ∃ c, p.children[index]? = some c ∧ c.at? place = some q :=
  Option.bind_eq_some_iff

theorem at?_group_of_getElem? (h : params[index]? = some (key, p)) :
    (group i name params hidden).at? (index :: place) = p.at? place := by
  rw [at?, children_group, List.getElem?_map, h]
  rfl

theorem mem_nodes_of_at? (h : p.at? place = some q) : q ∈ p.nodes := by
  induction place generalizing p with
  | nil => exact Option.some.inj h ▸ self_mem_nodes p
  | cons index rest ih =>
    obtain ⟨c, hc, hq⟩ := at?_cons_eq_some_iff.mp h
    exact mem_nodes_iff.mpr (Or.inr ⟨c, List.mem_of_getElem? hc, ih hq⟩)

/-- Without repeated ids, members that share an id stand at the same index. -/
theorem index_eq_of_mem_ids {index' : Nat} (h : p.ids.Nodup) (hx : p.children[index]? = some x)
    (hy : p.children[index']? = some y) (hix : i ∈ x.ids) (hiy : i ∈ y.ids) : index = index' := by
  have hids : (p.children.flatMap ids).Nodup := by
    have hnodes := nodup_map_id_flatMap_children h
    rwa [List.map_flatMap, funext map_id_nodes] at hnodes
  have hdisjoint := List.pairwise_iff_getElem.mp (List.nodup_flatMap.mp hids).2
  obtain ⟨hindex, rfl⟩ := List.getElem?_eq_some_iff.mp hx
  obtain ⟨hindex', rfl⟩ := List.getElem?_eq_some_iff.mp hy
  rcases Nat.lt_trichotomy index index' with hlt | heq | hgt
  · exact absurd hiy (hdisjoint index index' hindex hindex' hlt hix)
  · exact heq
  · exact absurd hix (hdisjoint index' index hindex' hindex hgt hiy)

/-- Without repeated ids, no node further down has the id of the whole. -/
theorem id_ne_of_at?_cons (h : p.ids.Nodup) (hx : p.at? (index :: place) = some x) :
    x.id ≠ p.id := by
  intro hid
  obtain ⟨c, hc, hx⟩ := at?_cons_eq_some_iff.mp hx
  refine (List.nodup_cons.mp h).1 (mem_descendantIds_iff.mpr ⟨c, List.mem_of_getElem? hc, ?_⟩)
  exact hid ▸ mem_ids_of_mem_nodes (mem_nodes_of_at? hx)

/-- Without repeated ids, an id stands at one place only. -/
theorem place_eq_of_id_eq (h : p.ids.Nodup) (hx : p.at? place = some x)
    (hy : p.at? other = some y) (hid : x.id = y.id) : place = other := by
  induction place generalizing p other with
  | nil =>
    cases other with
    | nil => rfl
    | cons index' rest' =>
      rw [← Option.some.inj hx] at hid
      exact absurd hid.symm (id_ne_of_at?_cons h hy)
  | cons index rest ih =>
    cases other with
    | nil =>
      rw [← Option.some.inj hy] at hid
      exact absurd hid (id_ne_of_at?_cons h hx)
    | cons index' rest' =>
      obtain ⟨c, hc, hxc⟩ := at?_cons_eq_some_iff.mp hx
      obtain ⟨c', hc', hyc⟩ := at?_cons_eq_some_iff.mp hy
      have hxid := mem_ids_of_mem_nodes (mem_nodes_of_at? hxc)
      have hyid := mem_ids_of_mem_nodes (mem_nodes_of_at? hyc)
      obtain rfl := index_eq_of_mem_ids h hc hc' hxid (hid ▸ hyid)
      obtain rfl := Option.some.inj (hc.symm.trans hc')
      have hnodup := nodup_ids_of_mem_nodes h (mem_nodes_of_mem_children (List.mem_of_getElem? hc))
      rw [ih hnodup hxc hyc]

/-! ### What an exchange leaves -/

namespace ExchangedAt

/-- The whole may be exchanged. -/
theorem self (p r : Param) : p.ExchangedAt [] r r where
  at_place := rfl
  beside _ hother _ := absurd List.nil_prefix hother
  above _ hother hne := absurd (List.prefix_nil.mp hother) hne

/-- What is exchanged in a member is exchanged in the group. -/
theorem member (hp : params[index]? = some (key, p)) (h : p.ExchangedAt place r q) :
    (group i name params hidden).ExchangedAt (index :: place) r
      (group i name (params.set index (key, q)) hidden) := by
  obtain ⟨hindex, hmember⟩ := List.getElem?_eq_some_iff.mp hp
  have hq : (params.set index (key, q))[index]? = some (key, q) :=
    List.getElem?_set_self hindex
  refine ⟨?at_place, ?beside, ?above⟩
  case at_place =>
    rw [at?_group_of_getElem? hq]
    exact h.at_place
  case beside =>
    intro other hbelow habove
    cases other with
    | nil => exact absurd List.nil_prefix habove
    | cons index' rest =>
      by_cases heq : index' = index
      · subst heq
        rw [at?_group_of_getElem? hq, at?_group_of_getElem? hp]
        refine h.beside rest (fun hrest => hbelow ?_) fun hrest => habove ?_
        · exact List.cons_prefix_cons.mpr ⟨rfl, hrest⟩
        · exact List.cons_prefix_cons.mpr ⟨rfl, hrest⟩
      · -- Another member stays the same.
        rw [at?, at?, children_group, children_group, List.getElem?_map, List.getElem?_map,
          List.getElem?_set_ne (Ne.symm heq)]
  case above =>
    intro other hprefix hne
    cases other with
    | nil =>
      have hkeys : (params.set index (key, q)).map Prod.fst = params.map Prod.fst := by
        have hlt : index < (params.map Prod.fst).length := by simpa using hindex
        have hkey : (params.map Prod.fst)[index] = key := by simp [hmember]
        rw [List.map_set, ← hkey, List.set_getElem_self]
      exact ⟨_, _, rfl, rfl, i, name, params, _, hidden, rfl, rfl, hkeys⟩
    | cons index' rest =>
      obtain ⟨rfl, hrest⟩ := List.cons_prefix_cons.mp hprefix
      rw [at?_group_of_getElem? hq, at?_group_of_getElem? hp]
      exact h.above rest hrest fun heq => hne (heq ▸ rfl)

end ExchangedAt

/-- The first place in the first member that has the id is the first place of all. -/
theorem isFirstPlace_member (hp : params[index]? = some (key, p))
    (hbefore : ∀ index' < index, ∀ m, params[index']? = some m → i ∉ m.2.ids)
    (hplace : p.id = i ∧ place = [] ∨ p.id ≠ i ∧ p.IsFirstPlace i place) {j : ParamId} :
    (group j name params hidden).IsFirstPlace i (index :: place) := by
  refine ⟨⟨List.cons_ne_nil _ _, ?_⟩, fun other hother => ?_⟩
  · rw [at?_group_of_getElem? hp]
    rcases hplace with ⟨hid, rfl⟩ | ⟨-, ⟨-, hstands⟩, -⟩
    · exact ⟨p, rfl, hid⟩
    · exact hstands
  · obtain ⟨hne, x, hx, hid⟩ := hother
    cases other with
    | nil => exact absurd rfl hne
    | cons index' rest =>
      obtain ⟨c, hc, hxc⟩ := at?_cons_eq_some_iff.mp hx
      rw [children_group, List.getElem?_map] at hc
      obtain ⟨m, hm, rfl⟩ := Option.map_eq_some_iff.mp hc
      have hlast : ¬ index' < index := fun hlt =>
        hbefore index' hlt m hm (hid ▸ mem_ids_of_mem_nodes (mem_nodes_of_at? hxc))
      rw [List.cons_lt_cons_iff]
      rintro (hlt | ⟨rfl, hlt⟩)
      · exact hlast hlt
      · obtain rfl := Option.some.inj (hp.symm.trans hm)
        rcases hplace with ⟨-, rfl⟩ | ⟨hpid, -, hfirst⟩
        · exact List.not_lt_nil _ hlt
        · refine hfirst rest ⟨?_, x, hxc, hid⟩ hlt
          rintro rfl
          obtain rfl := Option.some.inj hxc
          exact hpid hid

/-- An exchange leaves the parameter with the definition in place of the node at the first place of
its id. -/
theorem exists_place_of_replaceDescendant? (h : p.replaceDescendant? r = some q) :
    ∃ place, p.IsFirstPlace r.id place ∧ p.ExchangedAt place r q := by
  induction p using Param.induction generalizing q with
  | leaf j name control => cases h
  | group j name params hidden ih =>
    obtain ⟨params', hparams, rfl⟩ := Option.map_eq_some_iff.mp h
    obtain ⟨index, key, m, q, hm, rfl, hbefore, hq⟩ := exists_member_of_replaceAmong? hparams
    rcases hq with ⟨hid, rfl⟩ | ⟨hid, hq⟩
    · exact ⟨[index], isFirstPlace_member hm hbefore (Or.inl ⟨hid, rfl⟩),
        (ExchangedAt.self m q).member hm⟩
    · have hmem : m ∈ params.map Prod.snd := List.mem_map_of_mem (List.mem_of_getElem? hm)
      obtain ⟨place, hfirst, hexchanged⟩ := ih m hmem hq
      exact ⟨index :: place, isFirstPlace_member hm hbefore (Or.inr ⟨hid, hfirst⟩),
        hexchanged.member hm⟩

/-- The three walks below a parameter find the same, whatever ids are repeated in it. The id of a
definition is found below the parameter exactly if it is listed there, and exactly then the exchange
finds a copy. Where it finds none it leaves the parameter as it was. Where it finds one, the node at
the first place of the id has been exchanged for the definition; what stands neither above nor below
that place is as it was, and the groups above it have kept everything of their own. If no id is
repeated, the id stands at no other place. -/
theorem walks_agree (p r : Param) :
    (p.hasDescendant r.id = true ↔ r.id ∈ p.descendantIds) ∧
    ((replaceInPlace r p).1 = true ↔ r.id ∈ p.descendantIds) ∧
    replaceInPlace r p = ((p.replaceDescendant? r).isSome, p.replaceDescendant r) ∧
    ((replaceInPlace r p).1 = false → (replaceInPlace r p).2 = p) ∧
    ∀ q, replaceInPlace r p = (true, q) → ∃ place, p.IsFirstPlace r.id place ∧
      p.ExchangedAt place r q ∧
      (p.ids.Nodup → ∀ other x, p.at? other = some x → x.id = r.id → other = place) := by
  have hinPlace := replaceInPlace_eq p r
  refine ⟨hasDescendant_iff p, ?_, hinPlace, fun hnone => ?_, fun q hq => ?_⟩
  · rw [hinPlace, isSome_replaceDescendant?_iff]
  · rw [hinPlace, Option.isSome_eq_false_iff, Option.isNone_iff_eq_none] at hnone
    rw [hinPlace, replaceDescendant, hnone, Option.getD_none]
  · obtain ⟨hsome, rfl⟩ := Prod.mk.inj (hinPlace.symm.trans hq)
    obtain ⟨q, hq⟩ := Option.isSome_iff_exists.mp hsome
    obtain ⟨place, hfirst, hexchanged⟩ := exists_place_of_replaceDescendant? hq
    refine ⟨place, hfirst, ?_, fun hnodup other x hx hid => ?_⟩
    · rwa [replaceDescendant, hq, Option.getD_some]
    · obtain ⟨-, y, hy, hyid⟩ := hfirst.1
      exact place_eq_of_id_eq hnodup hx hy (hid.trans hyid.symm)

/-- Of two copies, the one that is met first is exchanged, although the other is higher up. -/
example :
    replaceInPlace (leaf ⟨4⟩ "x" (.flag false)) (group ⟨1⟩ "r"
      [("a", group ⟨2⟩ "a" [("x", leaf ⟨4⟩ "x" (.flag true))] []),
        ("b", leaf ⟨4⟩ "b" (.flag true))] []) =
      (true, group ⟨1⟩ "r"
        [("a", group ⟨2⟩ "a" [("x", leaf ⟨4⟩ "x" (.flag false))] []),
          ("b", leaf ⟨4⟩ "b" (.flag true))] []) := rfl

end Param

end LiveTuner
