import LiveTuner.Param.Basic
import Mathlib.Logic.Function.Basic
import Mathlib.Tactic.SplitIfs

/-!
# Rosters

A roster says which ids have an editor. Every editor wears a badge, with the kind of its parameter
and a serial number, and the roster counts the numbers that have been given so far. Editors come and
go: one is made for an id that has none, one is made in place of another whose kind no longer fits,
one is removed. A new editor is given the next number, whatever has become of those before it.

The id of an editor does not tell it from others, for an id may have had several editors, one after
the other. The number does. What an editor shows, and where it stands, does not matter here.

## Main definitions

* `Badge`, `Roster` — what an editor wears, and who has an editor
* `Roster.Event`, `Roster.Step` — what can happen to an editor, and what becomes of the roster
* `Roster.Undergoes` — what becomes of it when several things happen, one after the other
* `Roster.IsNumbered` — the editors of different ids have different numbers

## Main results

* `Roster.Undergoes.serials_eq`, `Roster.Undergoes.nodup_serials` — the numbers are given in order,
  and none is given twice
* `Roster.Undergoes.isNumbered` — editors are told apart by their numbers
* `Roster.Undergoes.eq_of_serial_eq` — and so are the editors of different times
* `Roster.Undergoes.stays_or_ends` — an id keeps its editor unless that is removed or replaced
-/

namespace LiveTuner

/-- What tells an editor from others. -/
structure Badge where
  /-- The kind of the parameter. -/
  kind : Kind
  /-- The serial number. -/
  serial : Nat
  deriving DecidableEq, Repr

/-- The badges of the editors, and how many serial numbers have been given. -/
structure Roster where
  /-- The badge of the editor of an id. -/
  badge? : ParamId → Option Badge
  /-- The number of serial numbers that have been given; the next is one more. -/
  issued : Nat

namespace Roster

/-- A thing that happens to the editor of an id. -/
inductive Event where
  /-- An editor is made for an id that has none. -/
  | make (id : ParamId) (badge : Badge)
  /-- An editor is made in place of one for a parameter of the kind `old`. -/
  | replace (id : ParamId) (old : Kind) (badge : Badge)
  /-- The editor of an id is removed. -/
  | remove (id : ParamId)
  deriving DecidableEq, Repr

/-- The badge that is given, with the id whose editor is to wear it. -/
def Event.issue? : Event → Option (ParamId × Badge)
  | .make id badge => some (id, badge)
  | .replace id _ badge => some (id, badge)
  | .remove _ => none

/-- The serial number that is given. -/
def Event.serial? (event : Event) : Option Nat := event.issue?.map fun issue => issue.2.serial

/-- The roster with a new editor for an id; its badge bears the next number. -/
def issue (r : Roster) (id : ParamId) (kind : Kind) : Roster :=
  ⟨Function.update r.badge? id (some ⟨kind, r.issued + 1⟩), r.issued + 1⟩

/-- The roster without the editor of an id. The numbers that have been given stay given. -/
def drop (r : Roster) (id : ParamId) : Roster :=
  { r with badge? := Function.update r.badge? id none }

/-- What becomes of a roster when one thing happens. -/
inductive Step (r : Roster) : Event → Roster → Prop where
  /-- An editor is made for an id without one. -/
  | make (id : ParamId) (kind : Kind) (h : r.badge? id = none) :
    Step r (.make id ⟨kind, r.issued + 1⟩) (r.issue id kind)
  /-- An editor is replaced by one of another kind. -/
  | replace (id : ParamId) (old : Badge) (kind : Kind) (h : r.badge? id = some old)
    (hkind : old.kind ≠ kind) :
    Step r (.replace id old.kind ⟨kind, r.issued + 1⟩) (r.issue id kind)
  /-- An editor is removed. -/
  | remove (id : ParamId) (old : Badge) (h : r.badge? id = some old) :
    Step r (.remove id) (r.drop id)

/-- What becomes of a roster when the things in a list happen, one after the other. -/
inductive Undergoes : Roster → List Event → Roster → Prop where
  /-- Nothing happens. -/
  | nil (r : Roster) : Undergoes r [] r
  /-- One thing happens first, and then the others do. -/
  | cons {r u r' : Roster} {event : Event} {log : List Event} (h : Step r event u)
    (hrest : Undergoes u log r') : Undergoes r (event :: log) r'

/-- The numbers of the editors have been given, and no two editors have the same. -/
structure IsNumbered (r : Roster) : Prop where
  /-- A number that an editor has is one that has been given. -/
  serial_le : ∀ id b, r.badge? id = some b → b.serial ≤ r.issued
  /-- Different ids have editors of different numbers. -/
  id_eq : ∀ id id' b b', r.badge? id = some b → r.badge? id' = some b' →
    b.serial = b'.serial → id = id'

variable {r u r' : Roster} {event : Event} {log later : List Event} {id id' : ParamId}
  {b b' : Badge} {kind : Kind}

theorem badge?_issue (r : Roster) (id : ParamId) (kind : Kind) (z : ParamId) :
    (r.issue id kind).badge? z = if z = id then some ⟨kind, r.issued + 1⟩ else r.badge? z :=
  Function.update_apply r.badge? id _ z

theorem badge?_drop (r : Roster) (id z : ParamId) :
    (r.drop id).badge? z = if z = id then none else r.badge? z :=
  Function.update_apply r.badge? id none z

/-! ### One event -/

/-- An event gives out the next number or none at all. -/
theorem Step.serial?_eq (h : Step r event r') :
    event.serial? = none ∧ r'.issued = r.issued ∨
      event.serial? = some (r.issued + 1) ∧ r'.issued = r.issued + 1 := by
  cases h with
  | make id kind _ => exact Or.inr ⟨rfl, rfl⟩
  | replace id old kind _ _ => exact Or.inr ⟨rfl, rfl⟩
  | remove id old _ => exact Or.inl ⟨rfl, rfl⟩

/-- A badge has been worn before, or has just been given. -/
theorem Step.worn_or_issued (h : Step r event r') (hb : r'.badge? id = some b) :
    r.badge? id = some b ∨ event.issue? = some (id, b) := by
  -- The new editor is that of the event's id; all others were there before.
  have hissue : ∀ i kind, (r.issue i kind).badge? id = some b →
      r.badge? id = some b ∨ some (i, (⟨kind, r.issued + 1⟩ : Badge)) = some (id, b) := by
    intro i kind hb
    rw [badge?_issue] at hb
    split_ifs at hb with hid
    · exact Or.inr (by rw [hid, Option.some.inj hb])
    · exact Or.inl hb
  cases h with
  | make i kind _ => exact hissue i kind hb
  | replace i old kind _ _ => exact hissue i kind hb
  | remove i old _ =>
    rw [badge?_drop] at hb
    split_ifs at hb
    exact Or.inl hb

/-- A badge stays with its id, unless the editor is removed or replaced by one of another kind. -/
theorem Step.stays_or_ends (h : Step r event r') (hb : r.badge? id = some b) :
    r'.badge? id = some b ∨ event = .remove id ∨
      ∃ old badge, event = .replace id old badge ∧ old ≠ badge.kind := by
  cases h with
  | make i kind hnone =>
    have hid : id ≠ i := by
      rintro rfl
      exact absurd (hnone.symm.trans hb) (by simp)
    exact Or.inl (by rw [badge?_issue, if_neg hid, hb])
  | replace i old kind _ hkind =>
    by_cases hid : id = i
    · exact Or.inr (Or.inr ⟨old.kind, _, by rw [hid], hkind⟩)
    · exact Or.inl (by rw [badge?_issue, if_neg hid, hb])
  | remove i old _ =>
    by_cases hid : id = i
    · exact Or.inr (Or.inl (by rw [hid]))
    · exact Or.inl (by rw [badge?_drop, if_neg hid, hb])

theorem IsNumbered.issue (h : r.IsNumbered) (id : ParamId) (kind : Kind) :
    (r.issue id kind).IsNumbered := by
  -- The new number is above all numbers before it, so it is that of no other editor.
  have hfresh : ∀ z b, r.badge? z = some b → b.serial ≠ r.issued + 1 := fun z b hb =>
    Nat.ne_of_lt (Nat.lt_succ_of_le (h.serial_le z b hb))
  constructor
  · intro z b hb
    rw [badge?_issue] at hb
    split_ifs at hb
    · exact Option.some.inj hb ▸ Nat.le_refl _
    · exact Nat.le_succ_of_le (h.serial_le z b hb)
  · intro z z' b b' hb hb' hserial
    rw [badge?_issue] at hb hb'
    split_ifs at hb hb' with hz hz' hz'
    · exact hz.trans hz'.symm
    · exact absurd (hserial.symm.trans (Option.some.inj hb ▸ rfl)) (hfresh z' b' hb')
    · exact absurd (hserial.trans (Option.some.inj hb' ▸ rfl)) (hfresh z b hb)
    · exact h.id_eq z z' b b' hb hb' hserial

theorem IsNumbered.drop (h : r.IsNumbered) (id : ParamId) : (r.drop id).IsNumbered := by
  have hworn : ∀ z b, (r.drop id).badge? z = some b → r.badge? z = some b := by
    intro z b hb
    rw [badge?_drop] at hb
    split_ifs at hb
    exact hb
  exact ⟨fun z b hb => h.serial_le z b (hworn z b hb),
    fun z z' b b' hb hb' => h.id_eq z z' b b' (hworn z b hb) (hworn z' b' hb')⟩

theorem IsNumbered.step (h : r.IsNumbered) (hstep : Step r event r') : r'.IsNumbered := by
  cases hstep with
  | make id kind _ => exact h.issue id kind
  | replace id old kind _ _ => exact h.issue id kind
  | remove id old _ => exact h.drop id

/-! ### Several events -/

namespace Undergoes

theorem single (h : Step r event r') : r.Undergoes [event] r' := .cons h (.nil r')

theorem append (h : r.Undergoes log u) (hlater : u.Undergoes later r') :
    r.Undergoes (log ++ later) r' := by
  induction h with
  | nil _ => exact hlater
  | cons hstep _ ih => exact .cons hstep (ih hlater)

/-- All editors of some ids are removed, one after the other. -/
theorem removes (r : Roster) {ids : List ParamId} (hnodup : ids.Nodup)
    (hlive : ∀ id ∈ ids, r.badge? id ≠ none) :
    r.Undergoes (ids.map .remove)
      { r with badge? := fun z => if z ∈ ids then none else r.badge? z } := by
  induction ids generalizing r with
  | nil => simpa using Undergoes.nil r
  | cons id rest ih =>
    obtain ⟨hid, hrest⟩ := List.nodup_cons.mp hnodup
    obtain ⟨b, hb⟩ := Option.ne_none_iff_exists'.mp (hlive id List.mem_cons_self)
    -- The others still have their editors once the first is removed.
    have hlater := ih (r.drop id) hrest fun z hz => by
      have hne : z ≠ id := fun h => hid (h ▸ hz)
      rw [badge?_drop, if_neg hne]
      exact hlive z (List.mem_cons_of_mem id hz)
    have heq : (fun z => if z ∈ rest then none else (r.drop id).badge? z) =
        fun z => if z ∈ id :: rest then none else r.badge? z := by
      funext z
      by_cases hz : z = id
      · simp [badge?_drop, hz]
      · simp [badge?_drop, hz]
    rw [heq] at hlater
    exact .cons (.remove id b hb) hlater

/-- The numbers that are given follow those given before, one after the other without a gap. -/
theorem serials_eq (h : r.Undergoes log r') :
    ∃ n, r'.issued = r.issued + n ∧
      log.filterMap Event.serial? = List.range' (r.issued + 1) n := by
  induction h with
  | nil r => exact ⟨0, rfl, rfl⟩
  | cons hstep _ ih =>
    obtain ⟨n, hn, hserials⟩ := ih
    -- The numbers given later start where the first event leaves the counter.
    rcases hstep.serial?_eq with ⟨hserial, hissued⟩ | ⟨hserial, hissued⟩
    · refine ⟨n, by rw [hn, hissued], ?_⟩
      rw [List.filterMap_cons_none hserial, hserials, hissued]
    · refine ⟨n + 1, by rw [hn, hissued, Nat.add_assoc, Nat.add_comm 1], ?_⟩
      rw [List.filterMap_cons_some hserial, hserials, hissued, List.range'_succ]

/-- No number is given twice. -/
theorem nodup_serials (h : r.Undergoes log r') : (log.filterMap Event.serial?).Nodup := by
  obtain ⟨n, -, hserials⟩ := h.serials_eq
  rw [hserials]
  exact List.nodup_range'

/-- A number that is given is above those given before. -/
theorem lt_serial (h : r.Undergoes log r') (hevent : event ∈ log)
    (hissue : event.issue? = some (id, b)) : r.issued < b.serial := by
  obtain ⟨n, -, hserials⟩ := h.serials_eq
  have hserial : event.serial? = some b.serial := by rw [Event.serial?, hissue, Option.map_some]
  have hmem : b.serial ∈ List.range' (r.issued + 1) n :=
    hserials ▸ List.mem_filterMap.mpr ⟨event, hevent, hserial⟩
  exact (List.mem_range'_1.mp hmem).1

/-- A badge was worn at the start, or has been given since. -/
theorem worn_or_issued (h : r.Undergoes log r') (hb : r'.badge? id = some b) :
    r.badge? id = some b ∨ ∃ event ∈ log, event.issue? = some (id, b) := by
  induction h with
  | nil _ => exact Or.inl hb
  | @cons r u r' event log hstep _ ih =>
    rcases ih hb with hu | ⟨past, hpast, hissue⟩
    · refine (hstep.worn_or_issued hu).imp_right fun hissue => ?_
      exact ⟨event, List.mem_cons_self, hissue⟩
    · exact Or.inr ⟨past, List.mem_cons_of_mem event hpast, hissue⟩

/-- A badge stays with its id, unless the editor is removed or replaced by one of another kind in
the meantime. -/
theorem stays_or_ends (h : r.Undergoes log r') (hb : r.badge? id = some b) :
    r'.badge? id = some b ∨ .remove id ∈ log ∨
      ∃ old badge, .replace id old badge ∈ log ∧ old ≠ badge.kind := by
  induction h with
  | nil _ => exact Or.inl hb
  | @cons r u r' event log hstep _ ih =>
    rcases hstep.stays_or_ends hb with hu | hremove | ⟨old, badge, hreplace, hkind⟩
    · refine (ih hu).imp_right (Or.imp (List.mem_cons_of_mem event) ?_)
      rintro ⟨old, badge, hmem, hkind⟩
      exact ⟨old, badge, List.mem_cons_of_mem event hmem, hkind⟩
    · exact Or.inr (Or.inl (hremove ▸ List.mem_cons_self))
    · exact Or.inr (Or.inr ⟨old, badge, hreplace ▸ List.mem_cons_self, hkind⟩)

/-- The numbers stay apart. -/
theorem isNumbered (h : r.Undergoes log r') (hr : r.IsNumbered) : r'.IsNumbered := by
  induction h with
  | nil _ => exact hr
  | cons hstep _ ih => exact ih (hr.step hstep)

/-- Two editors of different times that have the same number have the same id and the same badge. -/
theorem eq_of_serial_eq (h : r.Undergoes log r') (hr : r.IsNumbered) (hb : r.badge? id = some b)
    (hb' : r'.badge? id' = some b') (hserial : b'.serial = b.serial) : id' = id ∧ b' = b := by
  rcases h.worn_or_issued hb' with hold | ⟨event, hevent, hissue⟩
  · -- Both numbers are of the same time.
    have hid := hr.id_eq id' id b' b hold hb hserial
    subst hid
    exact ⟨rfl, Option.some.inj (hold.symm.trans hb)⟩
  · -- The number of the one had been given before that of the other.
    have hlt := h.lt_serial hevent hissue
    have hle := hr.serial_le id b hb
    exact absurd hserial (Nat.ne_of_gt (Nat.lt_of_le_of_lt hle hlt))

end Undergoes

end Roster

end LiveTuner
