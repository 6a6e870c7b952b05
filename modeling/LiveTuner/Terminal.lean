import LiveTuner.Console
import LiveTuner.Program

/-!
# Jobs at a terminal

A job runs between a connection and a terminal. Events come from the one and typed octets from the
other; whatever comes is taken up at once, and the messages that it leaves in the outbox are written
before anything else is taken up.

## Main definitions

* `Terminal` — a job under way
* `Terminal.start`, `Terminal.handle`, `Terminal.enter`, `Terminal.close` — what can happen to it
* `Terminal.ending` — how the program ends when nothing more comes
-/

namespace LiveTuner

/-- A job under way. -/
structure Terminal where
  /-- The job. -/
  job : Job
  /-- The run that does it. -/
  run : Run Progress
  /-- The console of its user. -/
  console : Console
  /-- The complaints about what was typed. -/
  complaints : String

namespace Terminal

/-- The job of a session on a connection that has just opened. -/
def start (job : Job) (s : Session) : Walk Terminal := do
  let run ← Run.start job.observer .none s
  pure ⟨job, run, if job.takesCommands then .fresh else .closed, ""⟩

/-- Whether the run has come to its end. -/
def hasEnded (t : Terminal) : Bool := t.run.exit.isSome

/-- Takes up one branch and writes what is in the outbox then. A run that ends by it writes its
messages when it is finished. -/
def take (t : Terminal) (branch : Branch) : Walk Terminal := do
  let run ← Run.step t.job.observer t.run branch
  pure { t with run := if run.exit.isSome then run else run.writeAll }

/-- An event of the connection. -/
def handle (t : Terminal) (e : Event) : Walk Terminal := t.take (.event e)

/-- A line that was typed. -/
def obey (t : Terminal) : Typed → Walk Terminal
  | .command c => t.take (.command c)
  | .complaint fault => pure { t with complaints := t.complaints ++ fault.message ++ "\n" }

/-- Octets that were typed. -/
def enter (t : Terminal) (octets : List UInt8) : Walk Terminal := do
  let (console, typed) := t.console.enter octets
  typed.foldlM obey { t with console }

/-- The end of what is typed. -/
def close (t : Terminal) : Walk Terminal := do
  let (console, typed) := t.console.close
  typed.foldlM obey { t with console }

/-- The job at the end of its run. -/
def finish (t : Terminal) : Terminal := { t with run := t.run.finish }

/-- How the program ends after a finished job. -/
def ending (t : Terminal) : Ending :=
  let e := Ending.ofJob t.job t.run.memory t.run.reason
  { e with complaint := t.complaints ++ e.complaint }

end Terminal

end LiveTuner
