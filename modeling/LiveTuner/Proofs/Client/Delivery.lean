import LiveTuner.Proofs.Client.SetValue
import LiveTuner.Proofs.Session.Consistency

/-!
# What a run delivers

The branches of a run come in any order, and messages are queued by frames, by commands and by the
observer. Whatever the order, the messages are written as they were queued, and none is left out
between two that are written. A run that ends from this side leaves none out at all.

What was queued is told by the history of the run: the session as it was before each thing that it
was given to handle, as the observer was then shown it, and as the observer left it.

## Main definitions

* `Branch.incident?` — what a branch gives the session to handle
* `Handling`, `Run.history` — what the session of a run was given to handle, and what came of it
* `Observer.recording` — an observer that also remembers what it was shown, and how it left that

## Main results

* `Session.outbox_prefix_of_handle` — what a session handles takes no message out of the outbox
* `Run.steps_recording` — an observer is called for the history of the run, and for nothing else
* `Run.queue_steps` — the queue grows by what the history queues
* `Run.delivers` — what is written of a run of a new session
-/

namespace LiveTuner

/-! ### The outbox of a session -/

namespace Session

variable {s s' t : Session} {sent : List Outbound}

theorem outbox_prefix_sendAll (s : Session) (messages : List Outbound) :
    s.outbox <+: (s.sendAll messages).outbox := by
  rw [sendAll_eq]
  dsimp only
  split_ifs
  · exact List.prefix_append _ _
  · exact List.prefix_refl _

theorem Reselects.outbox_eq (h : s.Reselects t sent) : t.outbox = s.outbox := by
  cases h <;> rfl

/-- What a session handles takes no message out of the outbox. -/
theorem outbox_prefix_of_handle {incident : Incident} (h : s.handle incident = some s') :
    s.outbox <+: s'.outbox := by
  have hsend : ∀ {t sent}, s.Reselects t sent → s.outbox <+: (t.sendAll sent).outbox := by
    intro t sent hreselects
    rw [← hreselects.outbox_eq]
    exact t.outbox_prefix_sendAll sent
  cases outcome_of_handle h with
  | stays => exact List.prefix_refl _
  | lists hconnected names =>
    obtain ⟨t, sent, hreselects, heq⟩ := reselects_updateNodes hconnected names
    exact heq ▸ hsend hreselects
  | loads => exact List.prefix_refl _
  | redefines hready definitions hredefine =>
    obtain ⟨editors, rfl⟩ := redefine_eq hredefine
    exact List.prefix_refl _
  | pushes hready id val hpush =>
    obtain ⟨registry, editors, rfl⟩ := pushValue_eq hpush
    exact List.prefix_refl _
  | selects node hselect =>
    obtain ⟨t, sent, hreselects, rfl⟩ := reselects_selectNode hselect
    exact hsend hreselects
  | edits id interaction hinteract => exact outbox_prefix_of_interact hinteract

end Session

/-- What a branch gives the session to handle, if it does. -/
def Branch.incident? : Branch → Option Session.Incident
  | .event (.frame payload) => some (.frame payload)
  | .command (.select node) => some (.select node)
  | .command (.interact id interaction) => some (.interact id interaction)
  | .event (.ping _) | .event .ended | .write | .command .shutdown => none

/-- A thing that the session of a run was given to handle. -/
structure Handling where
  /-- What it was; none for the opening of the connection. -/
  cause : Option Session.Incident
  /-- The session before. -/
  before : Session
  /-- The session as the observer was shown it. -/
  shown : Session
  /-- The session as the observer left it. -/
  left : Session

namespace Handling

/-- The messages that were put into the outbox. -/
def queued (h : Handling) : List Outbound := h.left.outbox.drop h.before.outbox.length

/-- What the observer was shown is what came of the session before. -/
def IsDone (h : Handling) : Prop :=
  match h.cause with
  | none => h.shown = h.before.onConnected
  | some incident => h.before.handle incident = some h.shown

end Handling

/-- An observer that also remembers each session that it was shown, and how it left that. -/
def Observer.recording {σ : Type} (o : Observer σ) : Observer (σ × List (Session × Session)) where
  observe memory s := (o.observe memory.1 s).map fun (m, left, ends) =>
    ((m, memory.2 ++ [(s, left)]), left, ends)
  outbox_prefix := by
    intro memory s memory' s' ends h
    obtain ⟨⟨m, left, ends'⟩, hobserve, heq⟩ := Option.map_eq_some_iff.mp h
    obtain ⟨-, heq⟩ := Prod.mk.inj heq
    obtain ⟨rfl, -⟩ := Prod.mk.inj heq
    exact o.outbox_prefix hobserve

namespace Run

variable {σ : Type} {o : Observer σ} {memory : σ} {s : Session} {r r' : Run σ} {branch : Branch}
  {branches : List Branch} {incident : Session.Incident} {log : List (Session × Session)}

/-! ### The history of a run -/

/-- What the session of a run was given to handle when a branch was taken up, if anything. -/
def handling? (o : Observer σ) (r : Run σ) (branch : Branch) : Option Handling :=
  if r.exit.isSome then none
  else do
    let incident ← branch.incident?
    let shown ← r.session.handle incident
    let r' ← r.step o branch
    pure ⟨some incident, r.session, shown, r'.session⟩

/-- What the session of a run was given to handle when branches were taken up, in order. -/
def handlings (o : Observer σ) (r : Run σ) : List Branch → List Handling
  | [] => []
  | branch :: rest =>
    (r.handling? o branch).toList ++
      match r.step o branch with
      | some r' => handlings o r' rest
      | none => []

/-- What the session of a run was given to handle, from the opening of the connection on. -/
def history (o : Observer σ) (memory : σ) (s : Session) (branches : List Branch) :
    List Handling :=
  match start o memory s with
  | some r => ⟨none, s, s.onConnected, r.session⟩ :: r.handlings o branches
  | none => []

/-! ### One branch -/

theorem step_of_exit {exit : Exit} (hexit : r.exit = some exit) : r.step o branch = some r := by
  rw [step.eq_def, hexit, Option.isSome_some, if_pos rfl]
  rfl

theorem handling?_of_exit {exit : Exit} (hexit : r.exit = some exit) :
    r.handling? o branch = none := by
  rw [handling?, hexit, Option.isSome_some, if_pos rfl]

theorem handlings_cons (h : r.step o branch = some r') (rest : List Branch) :
    r.handlings o (branch :: rest) =
      (r.handling? o branch).toList ++ r'.handlings o rest := by
  rw [handlings, h]

theorem steps_of_exit {exit : Exit} (hexit : r.exit = some exit) (branches : List Branch) :
    r.steps o branches = some r ∧ r.handlings o branches = [] := by
  induction branches with
  | nil => exact ⟨rfl, rfl⟩
  | cons branch rest ih =>
    constructor
    · rw [steps, List.foldlM_cons, step_of_exit hexit]
      exact ih.1
    · rw [handlings_cons (step_of_exit hexit), handling?_of_exit hexit, ih.2]
      rfl

theorem handling?_of_incident? (hexit : r.exit = none) (hbranch : branch.incident? = some incident) :
    r.handling? o branch = (r.session.handle incident).bind fun shown =>
      (r.step o branch).map fun r' => ⟨some incident, r.session, shown, r'.session⟩ := by
  rw [handling?, hexit, if_neg (by simp), hbranch]
  simp only [Option.map_eq_bind]
  rfl

theorem handling?_of_incident?_eq_none (hbranch : branch.incident? = none) :
    r.handling? o branch = none := by
  rw [handling?, hbranch]
  split_ifs <;> rfl

/-- A branch gives the session what it says, and then the observer is called. -/
theorem step_of_incident? (hexit : r.exit = none) (hbranch : branch.incident? = some incident) :
    r.step o branch =
      (r.session.handle incident).bind fun session => consult o { r with session } := by
  rw [step.eq_def, hexit, if_neg (by simp)]
  cases branch with
  | event e =>
    cases e with
    | frame payload =>
      obtain rfl := Option.some.inj hbranch
      rw [Session.handle, Option.bind_map]
      rfl
    | ping | ended => cases hbranch
  | write => cases hbranch
  | command c =>
    cases c with
    | select node =>
      obtain rfl := Option.some.inj hbranch
      dsimp only
      rw [Session.handle, Session.obey]
      cases r.session.selectNode node with
      | ok result => rfl
      | error problem => rfl
    | interact id interaction =>
      obtain rfl := Option.some.inj hbranch
      dsimp only
      rw [Session.handle, Session.obey]
      cases r.session.interact id interaction with
      | none => rfl
      | some result => cases result <;> rfl
    | shutdown => cases hbranch

/-- The run with a longer memory. -/
def withLog (r : Run σ) (log : List (Session × Session)) :
    Run (σ × List (Session × Session)) :=
  ⟨r.session, (r.memory, log), r.written, r.exit⟩

/-- Any other branch calls no observer. It may write a message, answer a ping or end the run. -/
theorem step_of_incident?_eq_none (hexit : r.exit = none) (hbranch : branch.incident? = none) :
    ∃ r', r.step o branch = some r' ∧ r'.queue = r.queue ∧
      (.close ∈ r'.written → .close ∈ r.written) ∧
      ∀ log, (r.withLog log).step o.recording branch = some (r'.withLog log) := by
  have hexit' : ∀ log, (r.withLog log).exit = none := fun _ => hexit
  simp only [step.eq_def, hexit, hexit']
  cases branch with
  | event e =>
    cases e with
    | frame => cases hbranch
    | ping payload =>
      exact ⟨_, rfl, queue_pong r payload, fun h => by simpa using h, fun _ => rfl⟩
    | ended => exact ⟨_, rfl, rfl, fun h => h, fun _ => rfl⟩
  | write =>
    refine ⟨r.writeOne, rfl, queue_writeOne r, ?_, fun log => congrArg some ?_⟩
    · rw [writeOne]
      split
      · exact fun h => h
      · intro h
        simpa using h
    · rw [writeOne, writeOne, withLog]
      cases r.session.outbox with
      | nil => rfl
      | cons m rest => rfl
  | command c =>
    cases c with
    | select | interact => cases hbranch
    | shutdown => exact ⟨_, rfl, rfl, fun h => h, fun _ => rfl⟩

/-- What taking a branch up can come to: nothing once the run is over; no call of the observer, and
the same queue; or something for the session to handle, and one call of the observer. -/
theorem step_cases (h : r.step o branch = some r') :
    (r.exit ≠ none ∧ r' = r ∧ r.handling? o branch = none) ∨
    (r.exit = none ∧ branch.incident? = none ∧ r.handling? o branch = none ∧
      r'.queue = r.queue ∧ (.close ∈ r'.written → .close ∈ r.written) ∧
      ∀ log, (r.withLog log).step o.recording branch = some (r'.withLog log)) ∨
    ∃ incident session, r.exit = none ∧ branch.incident? = some incident ∧
      r.session.handle incident = some session ∧ consult o { r with session } = some r' ∧
      r.handling? o branch = some ⟨some incident, r.session, session, r'.session⟩ := by
  rcases Option.eq_none_or_eq_some r.exit with hexit | ⟨exit, hexit⟩
  · right
    cases hbranch : branch.incident? with
    | none =>
      obtain ⟨r₁, hstep, hkeeps⟩ := step_of_incident?_eq_none (o := o) hexit hbranch
      obtain rfl := Option.some.inj (h.symm.trans hstep)
      exact Or.inl ⟨hexit, rfl, handling?_of_incident?_eq_none hbranch, hkeeps⟩
    | some incident =>
      have hstep := h
      rw [step_of_incident? hexit hbranch] at h
      obtain ⟨session, hhandle, hconsult⟩ := Option.bind_eq_some_iff.mp h
      refine Or.inr ⟨incident, session, hexit, rfl, hhandle, hconsult, ?_⟩
      rw [handling?_of_incident? hexit hbranch, hstep, hhandle]
      rfl
  · left
    rw [step_of_exit hexit] at h
    exact ⟨by simp [hexit], (Option.some.inj h).symm, handling?_of_exit hexit⟩

/-- The observer is called with the session, and may end the run; nothing is written. -/
theorem consult_eq (h : consult o r = some r') :
    ∃ ends, o.observe r.memory r.session = some (r'.memory, r'.session, ends) ∧
      r'.written = r.written := by
  obtain ⟨⟨m, session, ends⟩, hobserve, heq⟩ := Option.bind_eq_some_iff.mp h
  obtain rfl := Option.some.inj heq
  exact ⟨ends, hobserve, rfl⟩

/-! ### The queue -/

/-- The queue grows by what is queued while a branch is handled. -/
theorem queue_step (h : r.step o branch = some r') :
    r'.queue = r.queue ++ (r.handling? o branch).toList.flatMap Handling.queued := by
  rcases step_cases h with ⟨-, rfl, hnone⟩ | ⟨-, -, hnone, hqueue, -, -⟩ |
    ⟨incident, session, -, -, hhandle, hconsult, hsome⟩
  · simp [hnone]
  · simp [hnone, hqueue]
  · obtain ⟨ends, hobserve, hwritten⟩ := consult_eq hconsult
    have hprefix : r.session.outbox <+: r'.session.outbox :=
      (Session.outbox_prefix_of_handle hhandle).trans (o.outbox_prefix hobserve)
    have hsplit := List.prefix_iff_eq_append.mp hprefix
    rw [hsome, queue, queue, messages, hwritten]
    simp [Handling.queued, messages, hsplit]

theorem queue_steps (h : r.steps o branches = some r') :
    r'.queue = r.queue ++ (r.handlings o branches).flatMap Handling.queued := by
  induction branches generalizing r with
  | nil =>
    obtain rfl := Option.some.inj h
    simp [handlings]
  | cons branch rest ih =>
    obtain ⟨r₁, hstep, hrest⟩ := Option.bind_eq_some_iff.mp h
    rw [handlings_cons hstep, List.flatMap_append, ih hrest, queue_step hstep, List.append_assoc]

/-! ### The calls of the observer -/

theorem consult_recording (h : consult o r = some r') (log : List (Session × Session)) :
    consult o.recording (r.withLog log) =
      some (r'.withLog (log ++ [(r.session, r'.session)])) := by
  obtain ⟨⟨m, session, ends⟩, hobserve, heq⟩ := Option.bind_eq_some_iff.mp h
  obtain rfl := Option.some.inj heq
  rw [consult]
  simp only [Observer.recording, withLog, hobserve]
  rfl

/-- What an observer is shown, and how it leaves that, at one branch. -/
theorem step_recording (h : r.step o branch = some r') (log : List (Session × Session)) :
    (r.withLog log).step o.recording branch = some (r'.withLog
      (log ++ (r.handling? o branch).toList.map fun h => (h.shown, h.left))) := by
  rcases step_cases h with ⟨hexit, rfl, hnone⟩ | ⟨-, -, hnone, -, -, hlog⟩ |
    ⟨incident, session, hexit, hbranch, hhandle, hconsult, hsome⟩
  · obtain ⟨exit, hexit⟩ := Option.ne_none_iff_exists'.mp hexit
    have hexit' : (r'.withLog log).exit = some exit := hexit
    rw [step_of_exit hexit', hnone, Option.toList_none, List.map_nil, List.append_nil]
  · rw [hlog, hnone, Option.toList_none, List.map_nil, List.append_nil]
  · have hexit' : (r.withLog log).exit = none := hexit
    rw [step_of_incident? hexit' hbranch, hsome]
    have hsession : (r.withLog log).session.handle incident = some session := hhandle
    rw [hsession]
    exact consult_recording hconsult log

/-- An observer is called for what the session is given to handle, in order, and for nothing
else. -/
theorem steps_recording (h : r.steps o branches = some r') (log : List (Session × Session)) :
    (r.withLog log).steps o.recording branches = some (r'.withLog
      (log ++ (r.handlings o branches).map fun h => (h.shown, h.left))) := by
  induction branches generalizing r log with
  | nil =>
    obtain rfl := Option.some.inj h
    rw [handlings, List.map_nil, List.append_nil]
    rfl
  | cons branch rest ih =>
    obtain ⟨r₁, hstep, hrest⟩ := Option.bind_eq_some_iff.mp h
    rw [steps, List.foldlM_cons, step_recording hstep log]
    rw [handlings_cons hstep, List.map_append, ← List.append_assoc]
    exact ih hrest _

/-! ### What was handled -/

theorem isDone_of_mem_handlings (h : r.steps o branches = some r') :
    ∀ x ∈ r.handlings o branches, x.IsDone := by
  induction branches generalizing r with
  | nil => exact fun x hx => absurd hx List.not_mem_nil
  | cons branch rest ih =>
    obtain ⟨r₁, hstep, hrest⟩ := Option.bind_eq_some_iff.mp h
    intro x hx
    rw [handlings_cons hstep] at hx
    rcases List.mem_append.mp hx with hx | hx
    · rcases step_cases hstep with ⟨-, -, hnone⟩ | ⟨-, -, hnone, -⟩ |
        ⟨incident, session, -, -, hhandle, -, hsome⟩
      · simp [hnone] at hx
      · simp [hnone] at hx
      · rw [hsome, Option.toList_some, List.mem_singleton] at hx
        rw [hx]
        exact hhandle
    · exact ih hrest x hx

/-- Branches are taken up in order until the run is over, and all that they give the session is
handled. -/
theorem exists_taken (h : r.steps o branches = some r') :
    ∃ taken rest, branches = taken ++ rest ∧ (r'.exit = none → rest = []) ∧
      r.steps o taken = some r' ∧ (r.handlings o branches).map Handling.cause =
        (taken.filterMap Branch.incident?).map some := by
  induction branches generalizing r with
  | nil => exact ⟨[], [], rfl, fun _ => rfl, h, rfl⟩
  | cons branch later ih =>
    rcases Option.eq_none_or_eq_some r.exit with hexit | ⟨exit, hexit⟩
    · obtain ⟨r₁, hstep, hrest⟩ := Option.bind_eq_some_iff.mp h
      obtain ⟨taken, rest, rfl, hleft, htaken, hcauses⟩ := ih hrest
      have hsteps : r.steps o (branch :: taken) = some r' := by
        rw [steps, List.foldlM_cons, hstep]
        exact htaken
      refine ⟨branch :: taken, rest, rfl, hleft, hsteps, ?_⟩
      rw [handlings_cons hstep, List.map_append, hcauses]
      rcases step_cases hstep with ⟨hover, -⟩ | ⟨-, hbranch, hnone, -⟩ |
        ⟨incident, session, -, hbranch, -, -, hsome⟩
      · exact absurd hexit hover
      · rw [hnone, List.filterMap_cons_none hbranch]
        rfl
      · rw [hsome, List.filterMap_cons_some hbranch]
        rfl
    · -- The run is over, and takes nothing up.
      obtain ⟨hsteps, hnone⟩ := steps_of_exit (o := o) hexit (branch :: later)
      obtain rfl := Option.some.inj (h.symm.trans hsteps)
      refine ⟨[], branch :: later, rfl, fun hover => ?_, rfl, ?_⟩
      · exact absurd (hover.symm.trans hexit) (by simp)
      · rw [hnone]
        rfl

/-! ### The end of a run -/

/-- Nothing is closed before the end. -/
theorem close_notMem_written (hrun : underway o memory s branches = some r) :
    .close ∉ r.written := by
  refine underway_induction (motive := fun _ r => .close ∉ r.written) (fun r₀ hr₀ => ?_)
    (fun _ branch r₁ r₂ _ hr₁ hstep => ?_) hrun
  · obtain ⟨-, -, hwritten⟩ := consult_eq hr₀
    rw [hwritten]
    exact List.not_mem_nil
  · rcases step_cases hstep with ⟨-, rfl, -⟩ | ⟨-, -, -, -, hclose, -⟩ |
      ⟨incident, session, -, -, -, hconsult, -⟩
    · exact hr₁
    · exact fun hr₂ => hr₁ (hclose hr₂)
    · obtain ⟨-, -, hwritten⟩ := consult_eq hconsult
      rw [hwritten]
      exact hr₁

/-- The data frames that have been written. -/
def frames (r : Run σ) : List Frame := r.messages.map Outbound.encode

theorem outbox_eq_nil_of_isNew (hnew : s.IsNew) : s.outbox = [] := by
  cases hnew <;> rfl

/-- The queue of a run of a new session is what its history has queued. -/
theorem queue_eq_flatMap_history (hnew : s.IsNew)
    (hrun : underway o memory s branches = some r) :
    r.queue = (history o memory s branches).flatMap Handling.queued := by
  obtain ⟨r₀, hr₀, hsteps⟩ := Option.bind_eq_some_iff.mp hrun
  obtain ⟨-, -, hwritten⟩ := consult_eq hr₀
  rw [queue_steps hsteps, history, hr₀, List.flatMap_cons, queue, messages, hwritten]
  simp [Handling.queued, outbox_eq_nil_of_isNew hnew]

/-- The messages of a run of a new session, for any order of branches and any observer.

The branches are taken up in order until the run is over. What they give the session is handled in
that order, after the opening of the connection. The observer is called once for each of these, with
what came of it, and not otherwise. The frames that are written are those of the first messages that
were queued, in order; if the run ends from this side, of all of them, and they are written before
the one close. -/
theorem delivers (hnew : s.IsNew) (hrun : underway o memory s branches = some r) :
    (∃ taken rest, branches = taken ++ rest ∧ (r.exit = none → rest = []) ∧
      underway o memory s taken = some r ∧
      (history o memory s branches).map Handling.cause =
        none :: (taken.filterMap Branch.incident?).map some) ∧
    (∀ x ∈ history o memory s branches, x.IsDone) ∧
    underway o.recording (memory, []) s branches =
      some (r.withLog ((history o memory s branches).map fun x => (x.shown, x.left))) ∧
    play o memory s branches = some r.finish ∧
    r.finish.frames <+:
      ((history o memory s branches).flatMap Handling.queued).map Outbound.encode ∧
    (r.reason = .shutdown →
      r.finish.frames =
        ((history o memory s branches).flatMap Handling.queued).map Outbound.encode ∧
      ∃ written, r.finish.written = written ++ [.close] ∧ .close ∉ written) := by
  have hqueue := queue_eq_flatMap_history hnew hrun
  obtain ⟨r₀, hr₀, hsteps⟩ := Option.bind_eq_some_iff.mp hrun
  have hhistory : history o memory s branches =
      ⟨none, s, s.onConnected, r₀.session⟩ :: r₀.handlings o branches := by
    rw [history, hr₀]
  refine ⟨?taken, ?done, ?calls, play_of_underway hrun, ?written, fun hreason => ?shutdown⟩
  case taken =>
    obtain ⟨taken, rest, heq, hexit, htaken, hcauses⟩ := exists_taken hsteps
    refine ⟨taken, rest, heq, hexit, ?_, ?_⟩
    · rw [underway, hr₀]
      exact htaken
    · rw [hhistory, List.map_cons, hcauses]
  case done =>
    rw [hhistory]
    exact List.forall_mem_cons.mpr ⟨rfl, isDone_of_mem_handlings hsteps⟩
  case calls =>
    have hstart : start o.recording (memory, []) s =
        some (r₀.withLog [(s.onConnected, r₀.session)]) := consult_recording hr₀ []
    rw [underway, hstart, hhistory]
    exact steps_recording hsteps _
  case written =>
    rw [frames, ← hqueue]
    exact r.messages_finish_prefix.map Outbound.encode
  case shutdown =>
    refine ⟨?_, r.written ++ r.session.outbox.map .message, written_finish_of_shutdown hreason, ?_⟩
    · rw [frames, ← hqueue, messages_finish_of_shutdown hreason]
    · have hclose := close_notMem_written hrun
      simp [hclose]

/-- Of the two messages of this run, a frame queues one and the observer the other one, and it ends
the run before that is written. -/
theorem delivers_sampleSetting :
    (Session.pinnedTo "a").IsNew ∧
    ∃ r, underway (.setting ⟨1⟩ (.bool false)) none (.pinnedTo "a") sampleSetting = some r ∧
      r.reason = .shutdown ∧
      r.finish.frames = ((history (.setting ⟨1⟩ (.bool false)) none (.pinnedTo "a")
        sampleSetting).flatMap Handling.queued).map Outbound.encode := by
  have hreason : (underway (.setting ⟨1⟩ (.bool false)) none (.pinnedTo "a") sampleSetting).map
      reason = some .shutdown := by decide +kernel
  obtain ⟨r, hrun, hreason⟩ := Option.map_eq_some_iff.mp hreason
  obtain ⟨-, -, -, -, -, hshutdown⟩ := delivers (.pinned "a") hrun
  exact ⟨.pinned "a", r, hrun, hreason, (hshutdown hreason).1⟩

end Run

end LiveTuner
