import LiveTuner.Client.Run

/-!
# Messages of a run

What a run has queued is what it has written and what is left in its outbox. Writing moves messages
from one to the other and changes nothing else about them, so whatever order the branches come in,
the queue grows only by what frames, commands and the observer put there.

## Main definitions

* `Run.messages` — the messages that have been written
* `Run.queue` — the messages that have been put into the outbox
* `Run.underway` — a run after some branches, before it is over

## Main results

* `Run.queue_writeOne` — writing keeps the queue
* `Run.written_finish_of_shutdown`, `Run.written_finish_of_disconnected` — what is written at last
* `Run.exists_underway_of_eq_none` — a run that is stuck was underway until then
* `Run.underway_induction` — what every step keeps holds of every run
-/

namespace LiveTuner

/-- The message that is written, if it is one. -/
def Transmission.message? : Transmission → Option Outbound
  | message m => some m
  | _ => none

namespace Run

variable {σ : Type} {o : Observer σ} {r : Run σ} {branches : List Branch}

/-- The messages that have been written, the oldest first. -/
def messages (r : Run σ) : List Outbound := r.written.filterMap Transmission.message?

/-- The messages that have been put into the outbox, whether they have been written or not. -/
def queue (r : Run σ) : List Outbound := r.messages ++ r.session.outbox

/-- A run of a session after some branches. -/
def underway (o : Observer σ) (memory : σ) (s : Session) (branches : List Branch) :
    Walk (Run σ) := do
  let r ← start o memory s
  r.steps o branches

theorem filterMap_message? (ms : List Outbound) :
    (ms.map Transmission.message).filterMap Transmission.message? = ms := by
  induction ms with
  | nil => rfl
  | cons m ms ih =>
    rw [List.map_cons, List.filterMap_cons, Transmission.message?, ih]

/-- Writing a message takes it out of the outbox and keeps the queue. -/
theorem queue_writeOne (r : Run σ) : r.writeOne.queue = r.queue := by
  rw [writeOne]
  split
  · rfl
  · next m rest h => simp [queue, messages, h, Transmission.message?]

/-- The answer to a ping is no message. -/
theorem queue_pong (r : Run σ) (payload : List UInt8) :
    ({ r with written := r.written ++ [.pong payload] } : Run σ).queue = r.queue := by
  simp [queue, messages, Transmission.message?]

/-- A run that ends from this side writes what is left in the outbox, and then the close. -/
theorem written_finish_of_shutdown (h : r.reason = .shutdown) :
    r.finish.written = r.written ++ r.session.outbox.map .message ++ [.close] := by
  rw [reason] at h
  simp only [finish, reason, Option.getD_some, h, writeAll]

/-- A run that the server ends writes nothing more. -/
theorem written_finish_of_disconnected (h : r.reason = .disconnected) :
    r.finish.written = r.written := by
  rw [reason] at h
  simp only [finish, reason, Option.getD_some, h]

theorem written_prefix_finish (r : Run σ) : r.written <+: r.finish.written := by
  cases h : r.reason with
  | shutdown =>
    rw [written_finish_of_shutdown h, List.append_assoc]
    exact List.prefix_append _ _
  | disconnected => exact (written_finish_of_disconnected h).symm ▸ List.prefix_refl _

theorem messages_finish_of_shutdown (h : r.reason = .shutdown) : r.finish.messages = r.queue := by
  rw [messages, written_finish_of_shutdown h, List.filterMap_append, List.filterMap_append,
    filterMap_message?]
  exact List.append_nil _

theorem messages_finish_of_disconnected (h : r.reason = .disconnected) :
    r.finish.messages = r.messages := by
  rw [messages, written_finish_of_disconnected h, messages]

/-- Nothing is written that was not put into the outbox. -/
theorem messages_finish_prefix (r : Run σ) : r.finish.messages <+: r.queue := by
  cases h : r.reason with
  | shutdown => exact (messages_finish_of_shutdown h).symm ▸ List.prefix_refl _
  | disconnected =>
    rw [messages_finish_of_disconnected h]
    exact List.prefix_append _ _

theorem memory_finish (r : Run σ) : r.finish.memory = r.memory := by
  cases h : r.reason with
  | shutdown | disconnected =>
    rw [reason] at h
    simp only [finish, reason, Option.getD_some, h, writeAll]

/-- A message of the queue is written, or left in the outbox. -/
theorem message_mem_of_mem_queue {m : Outbound} (h : m ∈ r.queue) :
    .message m ∈ r.written ++ r.session.outbox.map .message := by
  rcases List.mem_append.mp h with h | h
  · obtain ⟨t, ht, hm⟩ := List.mem_filterMap.mp h
    cases t with
    | message m' =>
      cases hm
      exact List.mem_append_left _ ht
    | pong | close => cases hm
  · exact List.mem_append_right _ (List.mem_map_of_mem h)

theorem play_of_underway {memory : σ} {s : Session}
    (h : underway o memory s branches = some r) : play o memory s branches = some r.finish := by
  rw [underway] at h
  obtain ⟨r₀, hr₀, hrest⟩ := Option.bind_eq_some_iff.mp h
  rw [play, hr₀]
  simp [hrest, pure]

theorem play_eq_none_of_underway {memory : σ} {s : Session}
    (h : underway o memory s branches = none) : play o memory s branches = none := by
  rw [underway] at h
  rw [play]
  cases hstart : start o memory s with
  | none => rfl
  | some r₀ =>
    rw [hstart] at h
    have hsteps : r₀.steps o branches = none := h
    simp [hsteps]

theorem exists_steps_of_eq_none (h : r.steps o branches = none) :
    ∃ taken branch rest r', branches = taken ++ branch :: rest ∧
      r.steps o taken = some r' ∧ r'.step o branch = none := by
  induction branches generalizing r with
  | nil => cases h
  | cons branch rest ih =>
    rw [steps, List.foldlM_cons] at h
    cases hstep : r.step o branch with
    | none => exact ⟨[], branch, rest, r, rfl, rfl, hstep⟩
    | some r₁ =>
      rw [hstep] at h
      obtain ⟨taken, branch', rest', r', rfl, hsteps, hnone⟩ := ih h
      refine ⟨branch :: taken, branch', rest', r', rfl, ?_, hnone⟩
      rw [steps, List.foldlM_cons, hstep]
      exact hsteps

/-- A run that does not come to the end of its branches has been underway until one of them. -/
theorem exists_underway_of_eq_none {memory : σ} {s : Session} (hstart : start o memory s = some r)
    (h : underway o memory s branches = none) :
    ∃ taken branch rest r', branches = taken ++ branch :: rest ∧
      underway o memory s taken = some r' ∧ r'.step o branch = none := by
  rw [underway, hstart] at h
  obtain ⟨taken, branch, rest, r', heq, hsteps, hnone⟩ := exists_steps_of_eq_none h
  refine ⟨taken, branch, rest, r', heq, ?_, hnone⟩
  rw [underway, hstart]
  exact hsteps

/-- What every step keeps, holds of a run as long as it is underway. The property may speak of the
branches that have been taken up. -/
theorem underway_induction {motive : List Branch → Run σ → Prop} {memory : σ} {s : Session}
    (hstart : ∀ r, start o memory s = some r → motive [] r)
    (hstep : ∀ taken branch r r', branch ∈ branches → motive taken r →
      r.step o branch = some r' → motive (taken ++ [branch]) r')
    (hrun : underway o memory s branches = some r) : motive branches r := by
  -- For any branches that are taken up after some others, so that the induction may go on.
  have hsteps : ∀ rest taken r₀, (∀ branch ∈ rest, branch ∈ branches) → motive taken r₀ →
      r₀.steps o rest = some r → motive (taken ++ rest) r := by
    intro rest
    induction rest with
    | nil =>
      intro taken r₀ _ h hrest
      obtain rfl := Option.some.inj hrest
      rwa [List.append_nil]
    | cons branch rest ih =>
      intro taken r₀ hmem h hrest
      obtain ⟨hbranch, hmem⟩ := List.forall_mem_cons.mp hmem
      obtain ⟨r₁, hr₁, hrest⟩ := Option.bind_eq_some_iff.mp hrest
      have h₁ := ih (taken ++ [branch]) r₁ hmem (hstep taken branch r₀ r₁ hbranch h hr₁) hrest
      rwa [List.append_assoc] at h₁
  obtain ⟨r₀, hr₀, hrest⟩ := Option.bind_eq_some_iff.mp hrun
  exact hsteps branches [] r₀ (fun _ h => h) (hstart r₀ hr₀) hrest

end Run

end LiveTuner
