import LiveTuner.Command
import LiveTuner.Session

/-!
# Runs

A run is the life of one connection. Three sources feed it: events of the connection, messages in
the outbox of the session, and commands of the user. One is taken up at a time, in whatever order
they are ready; `Run.step` takes one up.

An observer is shown the session once the connection is open and after every frame and every
command. It may edit parameters, and it says whether the run is to end. A run that ends from this
side writes what is left in the outbox before it closes the connection; one that the server ends
writes nothing more.

## Main definitions

* `Event`, `Transmission` — what comes in on a connection, and what is written to it
* `Observer` — who watches a run
* `Run` — a run so far
* `Run.start`, `Run.step`, `Run.finish` — its life
* `Run.play` — a whole run over a sequence of branches
-/

namespace LiveTuner

/-- What comes in on a connection. -/
inductive Event where
  /-- A frame; whether it is a text or a binary one makes no difference. -/
  | frame (payload : List UInt8)
  /-- A ping, to be answered with its payload. -/
  | ping (payload : List UInt8)
  /-- The end of the connection: the server closed it, or it failed. -/
  | ended
deriving DecidableEq, Repr

/-- What is written to a connection. -/
inductive Transmission where
  /-- A message. -/
  | message (m : Outbound)
  /-- The answer to a ping. -/
  | pong (payload : List UInt8)
  /-- The close of the connection from this side. -/
  | close
deriving DecidableEq, Repr

/-- Why a run ended. -/
inductive Exit where
  /-- The connection ended. -/
  | disconnected
  /-- The user or the observer asked for it. -/
  | shutdown
deriving DecidableEq, Repr

/-- The name of the reason in messages. -/
def Exit.name : Exit → String
  | .disconnected => "Disconnected"
  | .shutdown => "Shutdown"

/-- What a run takes up next. -/
inductive Branch where
  /-- An event of the connection. -/
  | event (e : Event)
  /-- The oldest message of the outbox. -/
  | write
  /-- A command of the user. -/
  | command (c : Command)
deriving DecidableEq, Repr

/-- The session after a command; one that is refused changes nothing. -/
def Session.obey (s : Session) : Command → Walk Session
  | .select node =>
    match s.selectNode node with
    | .ok (s, _) => pure s
    | .error _ => pure s
  | .interact id interaction => do
    match ← s.interact id interaction with
    | .ok (s, _) => pure s
    | .error _ => pure s
  | .shutdown => pure s

/-- Who watches a run, with a memory of type `σ`. -/
structure Observer (σ : Type) where
  /-- What it remembers next, the session as it leaves it, and whether the run is to end. -/
  observe : σ → Session → Walk (σ × Session × Bool)
  /-- It may put messages into the outbox, and takes none out. -/
  outbox_prefix : ∀ {memory s memory' s' ends},
    observe memory s = some (memory', s', ends) → s.outbox <+: s'.outbox

namespace Observer

/-- An observer that leaves every session as it is. -/
def reading {σ : Type} (look : σ → Session → Walk (σ × Bool)) : Observer σ where
  observe memory s := (look memory s).map fun (memory, ends) => (memory, s, ends)
  outbox_prefix := by
    intro memory s memory' s' ends h
    simp only [Option.map_eq_some_iff, Prod.mk.injEq] at h
    obtain ⟨_, _, _, hs, _⟩ := h
    exact hs ▸ List.prefix_refl _

/-- An observer whose memory is a part of a larger one. -/
def within {σ τ : Type} (part : τ → σ) (setPart : τ → σ → τ) (o : Observer σ) : Observer τ where
  observe memory s :=
    (o.observe (part memory) s).map fun (m, s, ends) => (setPart memory m, s, ends)
  outbox_prefix := by
    intro memory s memory' s' ends h
    simp only [Option.map_eq_some_iff, Prod.mk.injEq] at h
    obtain ⟨⟨m, t, e⟩, ho, _, hs, _⟩ := h
    exact hs ▸ o.outbox_prefix ho

end Observer

/-- A run so far. -/
structure Run (σ : Type) where
  /-- The session. -/
  session : Session
  /-- What the observer remembers. -/
  memory : σ
  /-- What has been written to the connection, the oldest first. -/
  written : List Transmission
  /-- Why the run ends, once it does. -/
  exit : Option Exit

namespace Run

variable {σ : Type}

/-- The run after its observer was shown the session. -/
def consult (o : Observer σ) (r : Run σ) : Walk (Run σ) := do
  let (memory, session, ends) ← o.observe r.memory r.session
  pure { r with memory, session, exit := if ends then some .shutdown else r.exit }

/-- The run of a session on a connection that has just opened. -/
def start (o : Observer σ) (memory : σ) (s : Session) : Walk (Run σ) :=
  consult o ⟨s.onConnected, memory, [], none⟩

/-- The run after the oldest message of the outbox, if there is one, was written. -/
def writeOne (r : Run σ) : Run σ :=
  match r.session.outbox with
  | [] => r
  | m :: rest =>
    { r with
      session := { r.session with outbox := rest }
      written := r.written ++ [.message m] }

/-- The run after all messages of the outbox were written. -/
def writeAll (r : Run σ) : Run σ :=
  { r with
    session := { r.session with outbox := [] }
    written := r.written ++ r.session.outbox.map .message }

/-- The run after one branch was taken up. A run that ends takes nothing up. -/
def step (o : Observer σ) (r : Run σ) (branch : Branch) : Walk (Run σ) :=
  if r.exit.isSome then pure r
  else
    match branch with
    | .event (.frame payload) => do
      let (session, _) ← r.session.handleFrame payload
      consult o { r with session }
    | .event (.ping payload) => pure { r with written := r.written ++ [.pong payload] }
    | .event .ended => pure { r with exit := some .disconnected }
    | .write => pure r.writeOne
    | .command .shutdown => pure { r with exit := some .shutdown }
    | .command c => do
      let session ← r.session.obey c
      consult o { r with session }

/-- The run after branches were taken up one after the other. -/
def steps (o : Observer σ) (r : Run σ) (branches : List Branch) : Walk (Run σ) :=
  branches.foldlM (step o) r

/-- Why the run ends; when there is nothing more to take up, the connection has ended. -/
def reason (r : Run σ) : Exit := r.exit.getD .disconnected

/-- The run at its end. Messages that were not written stay in the outbox. -/
def finish (r : Run σ) : Run σ :=
  let r := { r with exit := some r.reason }
  let r := match r.reason with
    | .shutdown => { r.writeAll with written := r.writeAll.written ++ [Transmission.close] }
    | .disconnected => r
  { r with session := r.session.onDisconnected }

/-- A whole run of a session, from the opening of the connection to its end. -/
def play (o : Observer σ) (memory : σ) (s : Session) (branches : List Branch) : Walk (Run σ) := do
  let r ← start o memory s
  let r ← r.steps o branches
  pure r.finish

/-- Writing one message first makes no difference to what writing all of them comes to. -/
theorem writeAll_writeOne (r : Run σ) : r.writeOne.writeAll = r.writeAll := by
  unfold writeOne
  split
  · rfl
  · next m rest h => simp [writeAll, h]

end Run

end LiveTuner
