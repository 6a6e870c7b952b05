import LiveTuner.Client.Run

/-!
# Setting one value

One value can be set without a user at hand: a run waits for the definitions of the selected node,
gives the parameter its value and ends. It also ends when the server lists its nodes without the one
the session is pinned to, since no definitions will come then.

## Main definitions

* `Observer.setting` — the observer of a run that sets one value
* `SetFault` — why a value was not set
* `sentValue` — what such a run came to
-/

namespace LiveTuner

/-- What came of the attempt to set a value: none before the attempt, then a problem, or the value
that was sent. -/
abbrev Attempt := Option (Except Problem (Option Value))

/-- An interaction takes nothing out of the outbox. -/
theorem Session.outbox_prefix_of_interact {s s' : Session} {id : ParamId}
    {interaction : Interaction} {sent : Option Value}
    (h : s.interact id interaction = some (.ok (s', sent))) : s.outbox <+: s'.outbox := by
  unfold Session.interact at h
  split at h
  · simp [pure] at h
  · rcases ht : s.editors.interact id interaction with _ | (problem | ⟨editors, _ | val⟩)
    · simp [ht] at h
    · simp [ht, pure] at h
    · simp only [ht, pure, Option.bind_eq_bind, Option.bind_some, Option.some.injEq,
        Except.ok.injEq, Prod.mk.injEq] at h
      exact h.1 ▸ List.prefix_refl _
    · simp only [ht, pure, Option.bind_eq_bind, Option.bind_some, Option.some.injEq,
        Except.ok.injEq, Prod.mk.injEq] at h
      rw [← h.1]
      unfold Session.send
      split
      · exact List.prefix_append _ _
      · exact List.prefix_refl _

/-- What the observer of `Observer.setting` does when it is shown a session. -/
def attemptSet (id : ParamId) (val : Value) (attempt : Attempt) (s : Session) :
    Walk (Attempt × Session × Bool) :=
  match s.missingPinned? with
  | some problem => pure (some (.error problem), s, true)
  | none =>
    if s.isReady then do
      match ← s.interact id (.setValue val) with
      | .ok (s, sent) => pure (some (.ok sent), s, true)
      | .error problem => pure (some (.error problem), s, true)
    else pure (attempt, s, false)

/-- The observer that sets a value as soon as the definitions are loaded, and then ends the run. -/
def Observer.setting (id : ParamId) (val : Value) : Observer Attempt where
  observe := attemptSet id val
  outbox_prefix := by
    intro memory s memory' s' ends h
    unfold attemptSet at h
    split at h
    · simp only [pure, Option.some.injEq, Prod.mk.injEq] at h
      exact h.2.1 ▸ List.prefix_refl _
    · split at h
      · rcases hi : s.interact id (.setValue val) with _ | (problem | ⟨t, sent⟩)
        · simp [hi] at h
        · simp only [hi, pure, Option.bind_eq_bind, Option.bind_some, Option.some.injEq,
            Prod.mk.injEq] at h
          exact h.2.1 ▸ List.prefix_refl _
        · simp only [hi, pure, Option.bind_eq_bind, Option.bind_some, Option.some.injEq,
            Prod.mk.injEq] at h
          exact h.2.1 ▸ Session.outbox_prefix_of_interact hi
      · simp only [pure, Option.some.injEq, Prod.mk.injEq] at h
        exact h.2.1 ▸ List.prefix_refl _

/-- Why a value was not set. -/
inductive SetFault where
  /-- The parameter takes no value. -/
  | noValue (id : ParamId)
  /-- The session reported a problem. -/
  | problem (p : Problem)
  /-- The run ended before the definitions were loaded. -/
  | tooEarly (exit : Exit)

/-- The wording of a fault. -/
def SetFault.message : SetFault → String
  | .noValue id => s!"{id.text} does not take a value"
  | .problem p => p.message
  | .tooEarly exit => s!"Disconnected ({exit.name}) before the parameter tree arrived"

/-- The value that was sent, by what came of the attempt and why the run ended. -/
def sentValue (id : ParamId) (attempt : Attempt) (exit : Exit) : Except SetFault Value :=
  match attempt with
  | some (.ok (some val)) => .ok val
  | some (.ok none) => .error (.noValue id)
  | some (.error p) => .error (.problem p)
  | none => .error (.tooEarly exit)

end LiveTuner
