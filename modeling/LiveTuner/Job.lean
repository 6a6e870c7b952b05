import LiveTuner.Client.SetValue
import LiveTuner.Outline
import LiveTuner.Report

/-!
# Jobs

The program connects to do one of three jobs: show the parameters whenever they change, show them
once, or set one of them. Each job is an observer of a run, with what it comes to when the run ends.

## Main definitions

* `Job` — a job
* `Progress` — how far a job has come
* `Job.observer`, `Job.conclude` — how a job is done, and what it comes to
-/

namespace LiveTuner

/-- A job for a connection. -/
inductive Job where
  /-- Shows the parameters whenever they change, if `printing`, and takes commands. -/
  | watch (printing : Bool)
  /-- Shows the parameters once. -/
  | dump
  /-- Sets the value of one parameter. -/
  | set (id : ParamId) (val : Value)
deriving DecidableEq, Repr

/-- How far a job has come. -/
structure Progress where
  /-- What was printed, the oldest first. -/
  printed : List String
  /-- The picture that was shown last. -/
  last : String
  /-- What came of the attempt to set a value. -/
  attempt : Attempt

/-- Nothing was done. -/
def Progress.none : Progress := ⟨[], "", Option.none⟩

/-- The picture of a session: the selected node, the state and the outline of the editors. -/
def Session.picture (s : Session) : Walk String := do
  let outline ← s.editors.outline
  let node := s.selected?.getD "-"
  pure (s!"[{node}] {s.state.inspected}\n" ++ outline)

/-- Prints the picture of a session if it differs from the last one. -/
def printChange (printing : Bool) (p : Progress) (s : Session) : Walk (Progress × Bool) := do
  let picture ← s.picture
  if printing && picture != p.last then
    pure ({ p with printed := p.printed ++ [picture ++ "\n"], last := picture }, false)
  else pure (p, false)

/-- Prints the outline of the editors once they are there. -/
def printOnce (p : Progress) (s : Session) : Walk (Progress × Bool) :=
  if s.isReady then do
    let outline ← s.editors.outline
    pure ({ p with printed := p.printed ++ [outline] }, true)
  else pure (p, false)

namespace Job

/-- The observer of a run that does the job. -/
def observer : Job → Observer Progress
  | watch printing => .reading (printChange printing)
  | dump => .reading printOnce
  | set id val =>
    (Observer.setting id val).within Progress.attempt fun p attempt => { p with attempt }

/-- Whether the run takes commands of the user. -/
def takesCommands : Job → Bool
  | watch _ => true
  | _ => false

/-- What is printed at the end of a run, by how far the job came and why the run ended, or the
report that it was not done. -/
def conclude (job : Job) (p : Progress) (exit : Exit) : Except Report String :=
  match job with
  | watch _ => .ok ""
  | dump =>
    match exit with
    | .shutdown => .ok ""
    | .disconnected => .error (.bare "Disconnected before the parameter tree arrived")
  | set id _ =>
    match sentValue id p.attempt exit with
    | .ok val => .ok s!"{id.text} = {val.message}\n"
    | .error fault => .error (.bare fault.message)

end Job

end LiveTuner
