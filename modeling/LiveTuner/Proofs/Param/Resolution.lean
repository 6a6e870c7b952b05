import LiveTuner.Param.Resolution
import LiveTuner.Proofs.Param.Definition
import LiveTuner.Proofs.Param.Nodes

/-!
# What resolution keeps

A definition is resolved node by node: what becomes of a definition in a group depends on that
definition alone. So the parameter has the nodes of the definition, in the same order and under the
same attributes, and a definition that describes nothing costs no more than its own control.

Which definitions describe something is a matter of their fields. `Definition.Describes` says so
without going through the order in which the fields are looked at.

## Main definitions

* `Layout` — what a definition has in common with the parameter made of it
* `Definition.nodes` — a definition and everything in it, depth first
* `Definition.Describes` — by its fields, a definition describes a parameter of a kind

## Main results

* `Definition.describes_iff` — a definition is resolved to a parameter of the kind it describes
* `Definition.nodes_resolveLeniently` — nodes are resolved one by one
* `Definition.keeps_layout` — resolution keeps the layout, and fails only where a node describes
  nothing
-/

namespace LiveTuner

/-- Ids, names, attributes in their order and, of groups, which of these are hidden. -/
inductive Layout where
  /-- No group. -/
  | leaf (id : ParamId) (name : String)
  /-- A group with its members, and the attributes that are not shown. -/
  | group (id : ParamId) (name : String) (members : List (String × Layout)) (hidden : List String)

namespace Param

mutual

/-- The layout of a parameter. -/
def layout : Param → Layout
  | leaf id name _ => .leaf id name
  | group id name params hidden => .group id name (layoutAmong params) hidden

/-- The layouts of parameters under attributes. -/
def layoutAmong : List (String × Param) → List (String × Layout)
  | [] => []
  | (key, p) :: rest => (key, layout p) :: layoutAmong rest

end

theorem layoutAmong_eq (params : List (String × Param)) :
    layoutAmong params = params.map fun m => (m.1, m.2.layout) := by
  induction params with
  | nil => rfl
  | cons member rest ih => rw [layoutAmong, ih, List.map_cons]

end Param

/-- The bound sets a number for each of so many indices. -/
def Bound.Spans (length : Nat) : Bound → Prop
  | uniform _ => True
  | perIndex xs => xs.length = length

namespace Definition

mutual

/-- The layout of a definition. Without members, hidden attributes are without meaning. -/
def layout (d : Definition) : Layout :=
  match d with
  | ⟨id, name, _, _, _, _, _, _, params, hidden⟩ =>
    match params with
    | some members => .group id name (layoutAmong members) (hidden.getD [])
    | none => .leaf id name

/-- The layouts of definitions under attributes. -/
def layoutAmong : List (String × Definition) → List (String × Layout)
  | [] => []
  | (key, d) :: rest => (key, layout d) :: layoutAmong rest

end

mutual

/-- The definition and everything in it, depth first. -/
def nodes (d : Definition) : List Definition :=
  match d with
  | ⟨id, name, val, min, max, logScale, step, oneof, params, hidden⟩ =>
    ⟨id, name, val, min, max, logScale, step, oneof, params, hidden⟩ ::
      match params with
      | some members => nodesAmong members
      | none => []

/-- The nodes of definitions under attributes, in order. -/
def nodesAmong : List (String × Definition) → List Definition
  | [] => []
  | (_, d) :: rest => nodes d ++ nodesAmong rest

end

variable {d n : Definition} {members : List (String × Definition)} {k : Kind}

theorem layoutAmong_eq (members : List (String × Definition)) :
    layoutAmong members = members.map fun m => (m.1, m.2.layout) := by
  induction members with
  | nil => rfl
  | cons member rest ih => rw [layoutAmong, ih, List.map_cons]

theorem nodesAmong_eq (members : List (String × Definition)) :
    nodesAmong members = (members.map Prod.snd).flatMap nodes := by
  induction members with
  | nil => rfl
  | cons member rest ih => rw [nodesAmong, ih, List.map_cons, List.flatMap_cons]

theorem resolveMembers_eq (members : List (String × Definition)) :
    resolveMembers members = members.map fun m => (m.1, m.2.resolveLeniently) := by
  induction members with
  | nil => rw [resolveMembers.eq_def]; rfl
  | cons member rest ih =>
    rw [resolveMembers.eq_def]
    exact congrArg ((member.1, member.2.resolveLeniently) :: ·) ih

theorem map_snd_resolveMembers (members : List (String × Definition)) :
    (resolveMembers members).map Prod.snd = (members.map Prod.snd).map resolveLeniently := by
  simp [resolveMembers_eq, Function.comp_def]

/-! ### One node -/

/-- With members, whatever else a definition says, it is a group of what these describe. -/
theorem resolveLeniently_of_params (h : d.params = some members) :
    d.resolveLeniently = .group d.id d.name (resolveMembers members) (d.hidden.getD []) := by
  obtain ⟨id, name, val, min, max, logScale, step, oneof, params, hidden⟩ := d
  obtain rfl : params = some members := h
  rw [resolveLeniently.eq_def]

/-- Without members, a definition is a parameter of its own. -/
theorem resolveLeniently_of_params_eq_none (h : d.params = none) :
    d.resolveLeniently = .leaf d.id d.name
      (match d.control with
      | .ok control => control
      | .error cause => .unresolved cause d) := by
  obtain ⟨id, name, val, min, max, logScale, step, oneof, params, hidden⟩ := d
  obtain rfl : params = none := h
  rw [resolveLeniently.eq_def]
  dsimp only
  cases control ⟨id, name, val, min, max, logScale, step, oneof, none, hidden⟩ <;> rfl

theorem id_resolveLeniently (d : Definition) : d.resolveLeniently.id = d.id := by
  cases h : d.params with
  | some members => rw [resolveLeniently_of_params h, Param.id_group]
  | none => rw [resolveLeniently_of_params_eq_none h, Param.id_leaf]

/-- A definition describes a parameter, or stays unresolved by the cause that is reported. -/
theorem resolve_cases (d : Definition) :
    d.resolve = .ok d.resolveLeniently ∨
      ∃ cause, d.resolve = .error cause ∧
        d.resolveLeniently = .leaf d.id d.name (.unresolved cause d) := by
  cases h : d.params with
  | some members => exact Or.inl (by rw [resolve, h, resolveLeniently_of_params h])
  | none =>
    rw [resolveLeniently_of_params_eq_none h, resolve, h]
    cases d.control with
    | ok c => exact Or.inl rfl
    | error cause => exact Or.inr ⟨cause, rfl, rfl⟩

/-! ### What fields describe -/

/-- By its fields, a definition describes a parameter of a kind. -/
inductive Describes (d : Definition) : Kind → Prop where
  /-- With members, it is a group, whatever its other fields hold. -/
  | group (hparams : d.params ≠ none) : Describes d .group
  /-- With options, it is a choice. The options and the value are parameter values. -/
  | choice {options : List Json} (hparams : d.params = none) (honeof : d.oneof = some options)
    (hoptions : ∀ v ∈ options, Value.ofJson? v ≠ none) (hval : Value.ofJson? d.val ≠ none) :
    Describes d .choice
  /-- With an upper bound, it is a scalar. The value is a number or a truth value, and the bounds
  are single ones. -/
  | scalar {hi : Binary64} (hparams : d.params = none) (honeof : d.oneof = none)
    (hmax : d.max = some (.uniform hi)) (hval : d.val.toReal? ≠ none ∨ ∃ b, d.val = .bool b)
    (hmin : ∀ bound ∈ d.min, ∃ lo, bound = .uniform lo) : Describes d .scalar
  /-- With an upper bound and a sequence as its value, it is a vector. The items are numbers, and
  bounds for each index are as many. -/
  | vector {items : List Json} {max : Bound} (hparams : d.params = none) (honeof : d.oneof = none)
    (hmax : d.max = some max) (hval : d.val = .array items)
    (hitems : ∀ v ∈ items, v.toReal? ≠ none) (hspans : max.Spans items.length)
    (hmin : ∀ bound ∈ d.min, bound.Spans items.length) : Describes d .vector
  /-- A truth value alone makes a flag. -/
  | flag {b : Bool} (hparams : d.params = none) (honeof : d.oneof = none) (hmax : d.max = none)
    (hval : d.val = .bool b) : Describes d .flag
  /-- A text alone makes a text. -/
  | text {s : String} (hparams : d.params = none) (honeof : d.oneof = none) (hmax : d.max = none)
    (hval : d.val = .string s) : Describes d .text

theorem Describes.kind_ne_unresolved (h : d.Describes k) : k ≠ .unresolved := by
  cases h <;> exact Kind.noConfusion

theorem exists_broadcast?_iff {length : Nat} {bound : Bound} :
    (∃ xs, broadcast? length bound = some xs) ↔ bound.Spans length := by
  cases bound with
  | uniform x => simp [broadcast?, Bound.Spans]
  | perIndex xs => simp [broadcast?, Bound.Spans]

theorem exists_choice_eq_ok_iff {options : List Json} :
    (∃ c, d.choice options = .ok c) ↔
      (∀ v ∈ options, Value.ofJson? v ≠ none) ∧ Value.ofJson? d.val ≠ none := by
  rw [choice]
  constructor
  · rintro ⟨c, hc⟩
    obtain ⟨values, hvalues, hc⟩ := exists_of_bind_eq_ok hc
    refine ⟨fun v hv hnone => ?_, fun hnone => ?_⟩
    · obtain ⟨value, hvalue⟩ := exists_mapM_eq_ok_iff.mp ⟨values, hvalues⟩ v hv
      rw [hnone] at hvalue
      cases hvalue
    · rw [hnone] at hc
      cases hc
  · rintro ⟨hoptions, hval⟩
    refine exists_bind_eq_ok (exists_mapM_eq_ok_iff.mpr fun v hv => ?_) fun values _ => ?_
    · obtain ⟨value, hvalue⟩ := Option.ne_none_iff_exists'.mp (hoptions v hv)
      rw [hvalue]
      exact ⟨value, rfl⟩
    · obtain ⟨value, hvalue⟩ := Option.ne_none_iff_exists'.mp hval
      rw [hvalue]
      exact ⟨_, rfl⟩

theorem exists_scalarValue_eq_ok_iff {v : Json} :
    (∃ x, scalarValue v = .ok x) ↔ v.toReal? ≠ none ∨ ∃ b, v = .bool b := by
  cases v with
  | bool b => exact ⟨fun _ => Or.inr ⟨b, rfl⟩, fun _ => ⟨_, rfl⟩⟩
  | integer n => exact ⟨fun _ => Or.inl (Option.some_ne_none _), fun _ => ⟨_, rfl⟩⟩
  | real x => exact ⟨fun _ => Or.inl (Option.some_ne_none _), fun _ => ⟨_, rfl⟩⟩
  | null | string | array | object => simp [scalarValue, Json.toReal?]

theorem exists_scalar_eq_ok_iff {max : Bound} :
    (∃ c, d.scalar max = .ok c) ↔ (d.val.toReal? ≠ none ∨ ∃ b, d.val = .bool b) ∧
      (∃ hi, max = .uniform hi) ∧ ∀ bound ∈ d.min, ∃ lo, bound = .uniform lo := by
  rw [← exists_scalarValue_eq_ok_iff, scalar.eq_def]
  constructor
  · rintro ⟨c, hc⟩
    obtain ⟨x, hx, hc⟩ := exists_of_bind_eq_ok hc
    refine ⟨⟨x, hx⟩, ?_⟩
    cases max with
    | perIndex his => cases hc
    | uniform hi =>
      refine ⟨⟨hi, rfl⟩, fun bound hbound => ?_⟩
      rw [Option.mem_def] at hbound
      cases bound with
      | uniform lo => exact ⟨lo, rfl⟩
      | perIndex los =>
        rw [hbound] at hc
        cases hc
  · rintro ⟨⟨x, hx⟩, ⟨hi, rfl⟩, hmin⟩
    refine exists_bind_eq_ok ⟨x, hx⟩ fun y _ => ?_
    cases hbound : d.min with
    | none => exact ⟨_, rfl⟩
    | some bound =>
      obtain ⟨lo, rfl⟩ := hmin bound hbound
      exact ⟨_, rfl⟩

theorem exists_vector_eq_ok_iff {items : List Json} {max : Bound} :
    (∃ c, d.vector items max = .ok c) ↔ (∀ v ∈ items, v.toReal? ≠ none) ∧
      max.Spans items.length ∧ ∀ bound ∈ d.min, bound.Spans items.length := by
  rw [vector.eq_def]
  constructor
  · rintro ⟨c, hc⟩
    obtain ⟨xs, hxs, hc⟩ := exists_of_bind_eq_ok hc
    have hlength := (mapM_eq_ok_iff.mp hxs).length_eq.symm
    refine ⟨fun v hv hnone => ?_, ?_⟩
    · obtain ⟨x, hx⟩ := exists_mapM_eq_ok_iff.mp ⟨xs, hxs⟩ v hv
      rw [hnone] at hx
      cases hx
    · rw [← hlength]
      dsimp only at hc
      split at hc
      · next his hmax =>
        refine ⟨exists_broadcast?_iff.mp ⟨his, hmax⟩, fun bound hbound => ?_⟩
        rw [pure_bind, Option.mem_def.mp hbound] at hc
        dsimp only at hc
        split at hc
        · next los hmin => exact exists_broadcast?_iff.mp ⟨los, hmin⟩
        · cases hc
      · cases hc
  · rintro ⟨hitems, hmax, hmin⟩
    refine exists_bind_eq_ok (exists_mapM_eq_ok_iff.mpr fun v hv => ?_) fun xs hxs => ?_
    · obtain ⟨x, hx⟩ := Option.ne_none_iff_exists'.mp (hitems v hv)
      rw [hx]
      exact ⟨x, rfl⟩
    · rw [(mapM_eq_ok_iff.mp hxs).length_eq] at hmax hmin
      obtain ⟨his, hhis⟩ := exists_broadcast?_iff.mpr hmax
      rw [hhis]
      cases hbound : d.min with
      | none => exact ⟨_, rfl⟩
      | some bound =>
        obtain ⟨los, hlos⟩ := exists_broadcast?_iff.mpr (hmin bound hbound)
        simp only [hlos]
        exact ⟨_, rfl⟩

/-- A choice has the options that the node has sent. -/
theorem choice_eq_ok {options : List Json} {c : Control} (h : d.choice options = .ok c) :
    ∃ ch, c = .choice ch ∧
      List.Forall₂ (fun v w => Value.ofJson? v = some w) options ch.options := by
  rw [choice] at h
  obtain ⟨values, hvalues, h⟩ := exists_of_bind_eq_ok h
  split at h
  · cases h
    refine ⟨_, rfl, (mapM_eq_ok_iff.mp hvalues).imp fun v w hw => ?_⟩
    split at hw
    · next hv => cases hw; exact hv
    · cases hw
  · cases h

/-- A scalar has the number that the node has sent, and its type. -/
theorem scalar_eq_ok {max : Bound} {c : Control} (h : d.scalar max = .ok c) :
    ∃ s, c = .scalar s ∧ scalarValue d.val = .ok (s.val, s.integral) := by
  rw [scalar.eq_def] at h
  obtain ⟨⟨x, integral⟩, hx, h⟩ := exists_of_bind_eq_ok h
  dsimp only at h
  split at h
  · rw [pure_bind] at h
    split at h <;> cases h <;> exact ⟨_, rfl, hx⟩
  · cases h

/-- A vector has the numbers that the node has sent, and their type. -/
theorem vector_eq_ok {items : List Json} {max : Bound} {c : Control}
    (h : d.vector items max = .ok c) :
    ∃ v, c = .vector v ∧ List.Forall₂ (fun item x => item.toReal? = some x) items v.val ∧
      v.integral = items.all Json.isInteger := by
  rw [vector.eq_def] at h
  obtain ⟨xs, hxs, h⟩ := exists_of_bind_eq_ok h
  have hitems : List.Forall₂ (fun item x => item.toReal? = some x) items xs := by
    refine (mapM_eq_ok_iff.mp hxs).imp fun item x hx => ?_
    split at hx
    · next hitem => cases hx; exact hitem
    · cases hx
  dsimp only at h
  split at h
  · rw [pure_bind] at h
    split at h
    · cases h
      exact ⟨_, rfl, hitems, rfl⟩
    · split at h <;> cases h
      exact ⟨_, rfl, hitems, rfl⟩
  · cases h

theorem kind_of_choice {options : List Json} {c : Control} (h : d.choice options = .ok c) :
    c.kind = .choice := by
  obtain ⟨ch, rfl, -⟩ := choice_eq_ok h
  rfl

theorem kind_of_scalar {max : Bound} {c : Control} (h : d.scalar max = .ok c) :
    c.kind = .scalar := by
  obtain ⟨s, rfl, -⟩ := scalar_eq_ok h
  rfl

theorem kind_of_vector {items : List Json} {max : Bound} {c : Control}
    (h : d.vector items max = .ok c) : c.kind = .vector := by
  obtain ⟨v, rfl, -⟩ := vector_eq_ok h
  rfl

/-- The control that a definition without members describes is of the kind its fields say. -/
theorem describes_iff_of_params_eq_none (hparams : d.params = none) :
    d.Describes k ↔ ∃ c, d.control = .ok c ∧ c.kind = k := by
  constructor
  · intro h
    rw [control.eq_def]
    cases h with
    | group hsome => exact absurd hparams hsome
    | @choice options _ honeof hoptions hval =>
      rw [honeof]
      obtain ⟨c, hc⟩ := exists_choice_eq_ok_iff.mpr ⟨hoptions, hval⟩
      exact ⟨c, hc, kind_of_choice hc⟩
    | scalar _ honeof hmax hval hmin =>
      rw [honeof, hmax]
      obtain ⟨c, hc⟩ := exists_scalar_eq_ok_iff.mpr ⟨hval, ⟨_, rfl⟩, hmin⟩
      refine ⟨c, ?_, kind_of_scalar hc⟩
      dsimp only
      split
      · next items hitems => simp [hitems, Json.toReal?] at hval
      · exact hc
    | vector _ honeof hmax hval hitems hspans hmin =>
      rw [honeof, hmax, hval]
      obtain ⟨c, hc⟩ := exists_vector_eq_ok_iff.mpr ⟨hitems, hspans, hmin⟩
      exact ⟨c, hc, kind_of_vector hc⟩
    | flag _ honeof hmax hval =>
      rw [honeof, hmax, hval]
      exact ⟨_, rfl, rfl⟩
    | text _ honeof hmax hval =>
      rw [honeof, hmax, hval]
      exact ⟨_, rfl, rfl⟩
  · rintro ⟨c, hc, rfl⟩
    rw [control.eq_def] at hc
    split at hc
    · next options honeof =>
      obtain ⟨hoptions, hval⟩ := exists_choice_eq_ok_iff.mp ⟨c, hc⟩
      rw [kind_of_choice hc]
      exact .choice hparams honeof hoptions hval
    · next max honeof hmax =>
      split at hc
      · next items hval =>
        obtain ⟨hitems, hspans, hmin⟩ := exists_vector_eq_ok_iff.mp ⟨c, hc⟩
        rw [kind_of_vector hc]
        exact .vector hparams honeof hmax hval hitems hspans hmin
      · obtain ⟨hval, ⟨hi, rfl⟩, hmin⟩ := exists_scalar_eq_ok_iff.mp ⟨c, hc⟩
        rw [kind_of_scalar hc]
        exact .scalar hparams honeof hmax hval hmin
    · next honeof hmax =>
      split at hc
      · next b hval =>
        cases hc
        exact .flag hparams honeof hmax hval
      · next s hval =>
        cases hc
        exact .text hparams honeof hmax hval
      · cases hc

/-- A definition is resolved exactly if its fields describe a parameter, and to one of the kind they
describe. -/
theorem describes_iff : d.Describes k ↔ ∃ p, d.resolve = .ok p ∧ p.kind = k := by
  cases hparams : d.params with
  | some members =>
    rw [resolve, hparams]
    constructor
    · intro h
      cases h with
      | group => exact ⟨_, rfl, rfl⟩
      | choice hnone | scalar hnone | vector hnone | flag hnone | text hnone =>
        exact absurd (hparams.symm.trans hnone) (by simp)
    · rintro ⟨p, hp, rfl⟩
      cases hp
      exact .group (by simp [hparams])
  | none =>
    rw [describes_iff_of_params_eq_none hparams, resolve, hparams]
    constructor
    · rintro ⟨c, hc, rfl⟩
      rw [hc]
      exact ⟨_, rfl, rfl⟩
    · rintro ⟨p, hp, rfl⟩
      cases hc : d.control with
      | error cause =>
        rw [hc] at hp
        cases hp
      | ok c =>
        rw [hc] at hp
        cases hp
        exact ⟨c, rfl, rfl⟩

/-! ### The whole tree -/

theorem nodes_eq (d : Definition) :
    d.nodes = d :: ((d.params.getD []).map Prod.snd).flatMap nodes := by
  obtain ⟨id, name, val, min, max, logScale, step, oneof, params, hidden⟩ := d
  rw [nodes.eq_def]
  cases params with
  | some members => simp [nodesAmong_eq]
  | none => rfl

theorem self_mem_nodes (d : Definition) : d ∈ d.nodes := by
  rw [nodes_eq]
  exact List.mem_cons_self

theorem children_resolveLeniently (d : Definition) :
    d.resolveLeniently.children = ((d.params.getD []).map Prod.snd).map resolveLeniently := by
  cases hparams : d.params with
  | some members =>
    rw [resolveLeniently_of_params hparams, Param.children_group, map_snd_resolveMembers]
    rfl
  | none =>
    rw [resolveLeniently_of_params_eq_none hparams]
    rfl

/-- The nodes of a definition are resolved one by one, wherever they stand. -/
theorem nodes_resolveLeniently (d : Definition) :
    d.resolveLeniently.nodes = d.nodes.map resolveLeniently := by
  induction d using Definition.induction with
  | h d ih =>
    rw [Param.nodes_eq, nodes_eq, List.map_cons, children_resolveLeniently, List.flatMap_map,
      List.map_flatMap]
    refine congrArg _ (List.flatMap_congr fun c hc => ?_)
    cases hparams : d.params with
    | some members => exact ih members hparams c (by simpa [hparams] using hc)
    | none => simp [hparams] at hc

theorem ids_resolveLeniently (d : Definition) :
    d.resolveLeniently.ids = d.nodes.map Definition.id := by
  rw [← Param.map_id_nodes, nodes_resolveLeniently, List.map_map]
  exact List.map_congr_left fun n _ => n.id_resolveLeniently

theorem layout_resolveLeniently (d : Definition) : d.resolveLeniently.layout = d.layout := by
  induction d using Definition.induction with
  | h d ih =>
    obtain ⟨id, name, val, min, max, logScale, step, oneof, params, hidden⟩ := d
    rw [layout.eq_def]
    cases params with
    | some members =>
      rw [resolveLeniently_of_params rfl, Param.layout, resolveMembers_eq, Param.layoutAmong_eq,
        List.map_map]
      dsimp only
      rw [layoutAmong_eq]
      refine congrArg (Layout.group id name · _) (List.map_congr_left fun m hm => ?_)
      exact congrArg (Prod.mk m.1) (ih members rfl m.2 (List.mem_map_of_mem hm))
    | none =>
      rw [resolveLeniently_of_params_eq_none rfl]
      rfl

/-- Resolution keeps ids, names, attributes in their order and hidden attributes, and lists ids
depth first. Every node is resolved by itself: to a group if it has members, else to an unresolved
parameter exactly if it fails on its own, with the cause of that. -/
theorem keeps_layout (d : Definition) :
    d.resolveLeniently.layout = d.layout ∧
    d.resolveLeniently.descendantIds = (d.nodes.map Definition.id).tail ∧
    d.resolveLeniently.nodes = d.nodes.map resolveLeniently ∧
    ∀ n ∈ d.nodes,
      (n.params ≠ none → n.resolveLeniently.kind = .group) ∧
      (∀ p, n.resolve = .ok p → n.resolveLeniently = p) ∧
      (n.resolveLeniently.kind = .unresolved ↔ ∃ cause, n.resolve = .error cause) ∧
      (∀ cause, n.resolve = .error cause →
        n.resolveLeniently = .leaf n.id n.name (.unresolved cause n)) ∧
      ((∃ cause, n.resolve = .error cause) ↔ ∀ k, ¬ n.Describes k) := by
  refine ⟨d.layout_resolveLeniently, ?_, d.nodes_resolveLeniently,
    fun n _ => ⟨fun hparams => ?group, ?resolved, ?unresolved, ?cause, ?fails⟩⟩
  · rw [← ids_resolveLeniently, Param.ids_eq_cons, List.tail_cons]
  case group =>
    obtain ⟨members, hmembers⟩ := Option.ne_none_iff_exists'.mp hparams
    rw [resolveLeniently_of_params hmembers]
    rfl
  case resolved =>
    intro p hp
    rcases n.resolve_cases with hok | ⟨cause, hcause, -⟩
    · exact Except.ok.inj (hok.symm.trans hp)
    · cases hcause.symm.trans hp
  case unresolved =>
    rcases n.resolve_cases with hok | ⟨cause, hcause, hleaf⟩
    · have hkind := (describes_iff.mpr ⟨_, hok, rfl⟩).kind_ne_unresolved
      simp [hok, hkind]
    · rw [hleaf, hcause]
      exact ⟨fun _ => ⟨cause, rfl⟩, fun _ => rfl⟩
  case cause =>
    intro cause hcause
    rcases n.resolve_cases with hok | ⟨cause', hcause', hleaf⟩
    · cases hok.symm.trans hcause
    · obtain rfl := Except.error.inj (hcause'.symm.trans hcause)
      exact hleaf
  case fails =>
    simp only [describes_iff]
    cases n.resolve with
    | ok p => simp
    | error cause => simp

end Definition

end LiveTuner
