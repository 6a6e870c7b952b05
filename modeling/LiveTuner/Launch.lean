import LiveTuner.Endpoint
import LiveTuner.Host
import LiveTuner.Program

/-!
# Launch

The launch of the program is all it does before it opens a connection. The file of the log is made
anew first of all; then the command line is read, and only an invocation that needs the settings
makes their directory and reads them.

## Main definitions

* `Launch` — what comes of the launch
* `Host.launch` — the launch by the words of a command line
-/

namespace LiveTuner

/-- What comes of the launch of the program. -/
inductive Launch where
  /-- The program is at its end. -/
  | ended (e : Ending)
  /-- It is to connect to a URL, which has the given parts, and to run a session until a job is
  done. -/
  | connect (url : String) (parts : Url) (s : Session) (job : Job)

namespace Host

variable {m : Type → Type} [Monad m]

/-- Makes the file of the log anew if one is named; how the program ends if it cannot. -/
def makeLog (host : Host m) : m (Option Ending) := do
  match ← host.lookUp logVariable with
  | none => return none
  | some path =>
    match ← host.write path "" with
    | .ok () => return none
    | .error reason => return some (.withoutLog path reason)

/-- The directory of the settings, if one can be determined. -/
def settingsDirectory (host : Host m) : m (Option String) := do
  return Settings.directory (← host.lookUp Settings.directoryVariable)
    (← host.lookUp Settings.allVariable) (← host.lookUp Settings.homeVariable)

/-- The settings in the file in a directory. -/
def readSettings (host : Host m) (directory : String) : m (Except SettingsFault Settings) := do
  let path := Settings.filePath directory
  return Settings.ofFile path (← host.read path)

/-- What the variables say about the settings. -/
def environment (host : Host m) : m Settings.Environment := do
  return ⟨← host.lookUp Settings.urlVariable, ← host.lookUp Settings.nodeVariable⟩

/-- Saves settings in a directory, which ends the program. -/
def saveSettings (host : Host m) (directory : String) (s : Settings) : m Ending := do
  let path := Settings.filePath directory
  match ← host.write path s.text with
  | .ok () => return s.saved directory
  | .error reason => return s.notSaved path reason

/-- The launch with settings in a directory that is there. -/
def launchIn (host : Host m) (directory : String) (words : List String) : m Launch := do
  match Plan.make words (← host.readSettings directory) (← host.environment) with
  | .finish e => return .ended e
  | .save s => return .ended (← host.saveSettings directory s)
  | .connect url s job =>
    match connectUrl url with
    | .ok parts => return .connect url parts s job
    | .error fault => return .ended (.failure fault.report)

/-- The launch of an invocation that needs the settings. -/
def launchWithSettings (host : Host m) (words : List String) : m Launch := do
  match ← host.settingsDirectory with
  | none => return .ended .withoutHome
  | some directory =>
    match ← host.makeDirectories directory with
    | some reason => return .ended (.withoutDirectory directory reason)
    | none => host.launchIn directory words

/-- The launch of the program by the words of its command line. -/
def launch (host : Host m) (words : List String) : m Launch := do
  match (← host.makeLog).or (Plan.withoutSettings? words) with
  | some e => return .ended e
  | none => host.launchWithSettings words

end Host

end LiveTuner
