import LiveTuner.Proofs.Editor.Bounds
import LiveTuner.Proofs.Param.Vector

/-!
# Finite bounds

Data values know only finite numbers: an integer of 64 bits is not rounded to infinity, and no other
number that is read is infinite or none at all. So the bounds and steps of a definition that is read
from data are finite, however deep in groups it stands. The bounds of a control are those of the
definition that it came from, or zero.

## Main results

* `Definition.isFinite_of_ofJson` — a definition that is read from data is finite
* `Definition.Bears.isFinite_bounds` — so are the bounds of a control that came from it
-/

namespace LiveTuner

theorem Json.isFinite_of_toReal? {v : Json} {x : Binary64} (h : v.toReal? = some x) :
    x.isFinite = true := by
  cases v with
  | integer n =>
    obtain rfl := Option.some.inj h
    have hlower := n.lower
    have hupper := n.upper
    exact Binary64.isFinite_ofInt (by omega)
  | real y =>
    obtain rfl := Option.some.inj h
    exact y.property
  | null | bool | string | array | object => cases h

namespace Definition

variable {d : Definition} {v : Json}

/-! ### Fields -/

theorem isFinite_of_readReal {x : Binary64} (h : readReal v = .ok x) : x.isFinite = true := by
  rw [readReal] at h
  split at h
  · next hx =>
    obtain rfl := Except.ok.inj h
    exact Json.isFinite_of_toReal? hx
  · cases h

theorem isFinite_of_readBound {b : Bound} (h : readBound v = .ok b) : b.isFinite = true := by
  unfold readBound at h
  split at h
  · split at h
    · next xs hxs =>
      obtain rfl := Except.ok.inj h
      rw [Bound.isFinite, List.all_eq_true]
      intro x hx
      obtain ⟨item, -, hitem⟩ := exists_mem_of_mapM_eq_some hxs hx
      exact Json.isFinite_of_toReal? hitem
    · cases h
  · split at h
    · next hx =>
      obtain rfl := Except.ok.inj h
      exact Json.isFinite_of_toReal? hx
    · cases h

/-- What holds of everything that is read holds of an optional field, if it is there. -/
theorem forall_of_readOptional {α : Type} {read : Json → Except Mismatch α} {P : α → Prop}
    {a? : Option α} (hread : ∀ a, read v = .ok a → P a) (h : readOptional read v = .ok a?) :
    ∀ a ∈ a?, P a := by
  unfold readOptional at h
  split at h
  · obtain rfl := Except.ok.inj h
    exact fun _ ha => absurd ha (by simp)
  · cases hv : read v with
    | error m => simp [hv, Except.map] at h
    | ok a =>
      rw [hv] at h
      obtain rfl := Except.ok.inj h
      intro a' ha'
      exact Option.some.inj ha' ▸ hread a hv

/-- A field that is read leaves the draft finite. -/
theorem isFinite_of_set {draft draft' : Draft} {field : String}
    (h : draft.others.isFinite = true) (hset : draft.set field v = .ok draft') :
    draft'.others.isFinite = true := by
  obtain ⟨hmin, hmax, hstep, hparams⟩ := isFinite_iff.mp h
  unfold Draft.set at hset
  dsimp only at hset
  split at hset
  -- Both bounds and the step bring numbers of their own.
  case h_4 =>
    obtain ⟨b, hb, rfl⟩ := exists_of_map_eq_ok hset
    have hb' := forall_of_readOptional (fun _ => isFinite_of_readBound) hb
    exact isFinite_iff.mpr ⟨hb', hmax, hstep, hparams⟩
  case h_5 =>
    obtain ⟨b, hb, rfl⟩ := exists_of_map_eq_ok hset
    have hb' := forall_of_readOptional (fun _ => isFinite_of_readBound) hb
    exact isFinite_iff.mpr ⟨hmin, hb', hstep, hparams⟩
  case h_7 =>
    obtain ⟨x, hx, rfl⟩ := exists_of_map_eq_ok hset
    have hx' := forall_of_readOptional (fun _ => isFinite_of_readReal) hx
    exact isFinite_iff.mpr ⟨hmin, hmax, hx', hparams⟩
  case h_3 | h_10 =>
    -- A value is kept as it comes, and an unknown field is passed over.
    obtain rfl := Except.ok.inj hset
    exact isFinite_iff.mpr ⟨hmin, hmax, hstep, hparams⟩
  all_goals
    -- The other fields bring no numbers.
    obtain ⟨_, -, rfl⟩ := exists_of_map_eq_ok hset
    exact isFinite_iff.mpr ⟨hmin, hmax, hstep, hparams⟩

theorem isFinite_setParams {draft : Draft} {params : Option (List (String × Definition))}
    (h : draft.others.isFinite = true)
    (hparams : ∀ members ∈ params, ∀ p ∈ members.map Prod.snd, p.isFinite = true) :
    (draft.setParams params).others.isFinite = true := by
  obtain ⟨hmin, hmax, hstep, -⟩ := isFinite_iff.mp h
  exact isFinite_iff.mpr ⟨hmin, hmax, hstep, hparams⟩

theorem isFinite_of_complete? {draft : Draft} (h : draft.others.isFinite = true)
    (hd : draft.complete? = some d) : d.isFinite = true := by
  obtain ⟨id, -, hd⟩ := Option.bind_eq_some_iff.mp hd
  obtain ⟨name, -, hd⟩ := Option.bind_eq_some_iff.mp hd
  obtain rfl := Option.some.inj hd
  obtain ⟨hmin, hmax, hstep, hparams⟩ := isFinite_iff.mp h
  exact isFinite_iff.mpr ⟨hmin, hmax, hstep, hparams⟩

/-! ### Definitions -/

mutual

/-- A definition that is read from data is finite. -/
theorem isFinite_of_ofJson (v : Json) {d : Definition} (h : ofJson v = .ok d) :
    d.isFinite = true := by
  match v with
  | .object members =>
    rw [ofJson] at h
    obtain ⟨draft, hdraft, h⟩ := exists_of_bind_eq_ok h
    rw [Draft.ofFields] at h
    split at h
    · next hd =>
      obtain rfl := Except.ok.inj h
      exact isFinite_of_complete? (isFinite_of_readFields members rfl hdraft) hd
    · cases h
  | .array items =>
    rw [ofJson] at h
    obtain ⟨draft, hdraft, h⟩ := exists_of_bind_eq_ok h
    rw [Draft.ofPositions] at h
    split at h
    · cases h
    · next hd =>
      split_ifs at h
      obtain rfl := Except.ok.inj h
      exact isFinite_of_complete? (isFinite_of_readPositions fieldNames items rfl hdraft) hd
  | .null | .bool _ | .integer _ | .real _ | .string _ => cases h

theorem isFinite_of_readFields (fields : List (String × Json)) {draft draft' : Draft}
    (hdraft : draft.others.isFinite = true) (h : readFields fields draft = .ok draft') :
    draft'.others.isFinite = true := by
  match fields with
  | [] =>
    rw [readFields] at h
    exact Except.ok.inj h ▸ hdraft
  | (field, v) :: rest =>
    rw [readFields] at h
    split_ifs at h
    · obtain ⟨params, hparams, h⟩ := exists_of_bind_eq_ok h
      exact isFinite_of_readFields rest
        (isFinite_setParams hdraft (isFinite_of_readParams v hparams)) h
    · obtain ⟨next, hnext, h⟩ := exists_of_bind_eq_ok h
      exact isFinite_of_readFields rest (isFinite_of_set hdraft hnext) h

theorem isFinite_of_readPositions (fields : List String) (items : List Json)
    {draft draft' : Draft} (hdraft : draft.others.isFinite = true)
    (h : readPositions fields items draft = .ok draft') : draft'.others.isFinite = true := by
  match fields, items with
  | field :: fields, v :: rest =>
    rw [readPositions] at h
    split_ifs at h
    · obtain ⟨params, hparams, h⟩ := exists_of_bind_eq_ok h
      exact isFinite_of_readPositions fields rest
        (isFinite_setParams hdraft (isFinite_of_readParams v hparams)) h
    · obtain ⟨next, hnext, h⟩ := exists_of_bind_eq_ok h
      exact isFinite_of_readPositions fields rest (isFinite_of_set hdraft hnext) h
  | [], _ | _ :: _, [] =>
    rw [readPositions] at h
    · exact Except.ok.inj h ▸ hdraft
    · simp

theorem isFinite_of_readParams (v : Json) {params : Option (List (String × Definition))}
    (h : readParams v = .ok params) :
    ∀ members ∈ params, ∀ p ∈ members.map Prod.snd, p.isFinite = true := by
  match v with
  | .null =>
    obtain rfl := Except.ok.inj h
    exact fun _ hnone => absurd hnone (by simp)
  | .object fields =>
    rw [readParams] at h
    obtain ⟨members, hmembers, rfl⟩ := exists_of_map_eq_ok h
    rintro _ ⟨⟩
    exact isFinite_of_readMembers fields hmembers
  | .array _ | .bool _ | .integer _ | .real _ | .string _ => cases h

theorem isFinite_of_readMembers (fields : List (String × Json))
    {members : List (String × Definition)} (h : readMembers fields = .ok members) :
    ∀ p ∈ members.map Prod.snd, p.isFinite = true := by
  match fields with
  | [] =>
    rw [readMembers] at h
    obtain rfl := Except.ok.inj h
    exact fun _ hp => absurd hp List.not_mem_nil
  | (key, v) :: rest =>
    rw [readMembers] at h
    obtain ⟨member, hmember, h⟩ := exists_of_bind_eq_ok h
    obtain ⟨later, hlater, h⟩ := exists_of_bind_eq_ok h
    cases h
    exact List.forall_mem_cons.mpr
      ⟨isFinite_of_ofJson v hmember, isFinite_of_readMembers rest hlater⟩

end

/-- So are all definitions in it. -/
theorem isFinite_of_mem_nodes {n : Definition} (h : d.isFinite = true) (hn : n ∈ d.nodes) :
    n.isFinite = true := by
  induction d using Definition.induction with
  | h d ih =>
    rw [nodes_eq] at hn
    rcases List.mem_cons.mp hn with rfl | hn
    · exact h
    · obtain ⟨c, hc, hnc⟩ := List.mem_flatMap.mp hn
      cases hparams : d.params with
      | none => simp [hparams] at hc
      | some members =>
        rw [hparams, Option.getD_some] at hc
        exact ih members hparams c hc ((isFinite_iff.mp h).2.2.2 members hparams c hc) hnc

/-! ### Controls -/

variable {c c' : Control} {max : Bound}

theorem isFinite_of_broadcast? {length : Nat} {b : Bound} {xs : List Binary64}
    (h : broadcast? length b = some xs) (hb : b.isFinite = true) : ∀ x ∈ xs, x.isFinite = true := by
  intro x hx
  cases b with
  | uniform y =>
    obtain rfl := Option.some.inj h
    exact List.eq_of_mem_replicate hx ▸ hb
  | perIndex ys =>
    rw [broadcast?] at h
    split_ifs at h
    exact List.all_eq_true.mp hb x (Option.some.inj h ▸ hx)

/-- A scalar has the bounds of its definition. Without a lower bound, that is zero. -/
theorem bounds_of_scalar {s : Scalar} (h : d.scalar max = .ok (.scalar s)) :
    max = .uniform s.max ∧ (d.min = none ∧ s.min = .zero ∨ d.min = some (.uniform s.min)) := by
  rw [scalar.eq_def] at h
  obtain ⟨⟨x, integral⟩, -, h⟩ := exists_of_bind_eq_ok h
  dsimp only at h
  split at h
  · rw [pure_bind] at h
    split at h
    · next hmin =>
      cases h
      exact ⟨rfl, Or.inl ⟨hmin, rfl⟩⟩
    · next hmin =>
      cases h
      exact ⟨rfl, Or.inr hmin⟩
    · cases h
  · cases h

/-- Zero stands in for a lower bound that is absent, and is finite, too. -/
theorem isFinite_bounds_of_control {lo hi : Binary64} (hd : d.isFinite = true)
    (h : d.control = .ok c) (hb : (lo, hi) ∈ c.bounds) :
    lo.isFinite = true ∧ hi.isFinite = true := by
  obtain ⟨hmin, hmax, -⟩ := isFinite_iff.mp hd
  rw [control.eq_def] at h
  split at h
  · obtain ⟨ch, rfl, -⟩ := choice_eq_ok h
    cases hb
  · next max _ hbound =>
    have hmax' := hmax max hbound
    split at h
    · obtain ⟨v, rfl, -⟩ := vector_eq_ok h
      obtain ⟨hlo, hhi⟩ := List.of_mem_zip hb
      obtain ⟨hmaxs, ⟨-, hmins⟩ | ⟨min, hlower, hmins⟩⟩ := bounds_of_vector h
      · rw [hmins] at hlo
        exact ⟨List.eq_of_mem_replicate hlo ▸ rfl, isFinite_of_broadcast? hmaxs hmax' hi hhi⟩
      · exact ⟨isFinite_of_broadcast? hmins (hmin min hlower) lo hlo,
          isFinite_of_broadcast? hmaxs hmax' hi hhi⟩
    · obtain ⟨s, rfl, -⟩ := scalar_eq_ok h
      obtain ⟨rfl, rfl⟩ := Prod.mk.inj (List.mem_singleton.mp hb)
      obtain ⟨rfl, ⟨-, hzero⟩ | hlower⟩ := bounds_of_scalar h
      · exact ⟨hzero ▸ rfl, hmax'⟩
      · exact ⟨hmin _ hlower, hmax'⟩
  · split at h <;> cases h <;> cases hb

theorem bounds_eq_of_revalued (h : c.Revalued c') : c'.bounds = c.bounds := by
  cases c <;> cases c' <;> first | rfl | exact h.elim | skip
  case scalar.scalar s s' =>
    have heq : s' = { s with val := s'.val } := h
    rw [heq]
    rfl
  case vector.vector v v' =>
    rw [h.1]
    rfl

/-- Whatever value a control has by now, its bounds are finite. -/
theorem Bears.isFinite_bounds (h : d.Bears c) (hd : d.isFinite = true) {lo hi : Binary64}
    (hb : (lo, hi) ∈ c.bounds) : lo.isFinite = true ∧ hi.isFinite = true := by
  obtain ⟨-, c₀, hcontrol, hc⟩ := h
  rw [bounds_eq_of_revalued hc] at hb
  exact isFinite_bounds_of_control hd hcontrol hb

end Definition

end LiveTuner
