import LiveTuner.CommandLine
import LiveTuner.Job
import LiveTuner.Settings

/-!
# The program

From the command line, the settings and the environment follows what the program is to do: it may be
done at once, it may have settings to save, or it has to connect for a job. Either way it ends with
an exit code, with what it prints and with what it complains about.

## Main definitions

* `Ending` — how the program ends
* `Plan` — what the program is to do
* `Plan.make` — the plan of a command line
-/

namespace LiveTuner

/-- How the program ends. -/
structure Ending where
  /-- The exit code. -/
  code : Nat
  /-- What is printed. -/
  output : String
  /-- What is complained about. -/
  complaint : String
deriving DecidableEq, Repr

namespace Ending

/-- The end of a program that did what it was asked to. -/
def success (output : String) : Ending := ⟨0, output, ""⟩

/-- The end of a program that failed. -/
def failure (r : Report) : Ending := ⟨1, "", r.page⟩

/-- How the program is used. -/
def usageText : String :=
  "Inspect and live-tune the parameters of a running node\n\n"
    ++ "Usage: tuner <COMMAND>\n\n"
    ++ "Commands:\n"
    ++ "  watch   Print the parameter tree whenever it changes; read commands from stdin\n"
    ++ "  dump    Print the parameter tree once and exit\n"
    ++ "  set     Set one parameter and exit\n"
    ++ "  config  Print the effective configuration\n"

/-- The end of a program whose command line is refused. -/
def usage (fault : UsageFault) : Ending := ⟨2, "", s!"error: {fault.message}\n\n{usageText}"⟩

/-- The end of a program that could not make the file of its log. -/
def withoutLog (path reason : String) : Ending :=
  failure ⟨s!"Failed to create log file at {path}", [reason]⟩

/-- The end of a program that has no directory for its settings. -/
def withoutHome : Ending := failure (.bare "Could not determine config directory")

/-- The end of a program that could not make the directory of its settings. -/
def withoutDirectory (directory reason : String) : Ending :=
  failure ⟨s!"Failed to create config directory {directory}", [reason]⟩

/-- The name and the version of the program. -/
def versionText : String := "tuner 0.1.0\n"

/-- The end of a job, after what it printed on the way. -/
def ofJob (job : Job) (p : Progress) (exit : Exit) : Ending :=
  match job.conclude p exit with
  | .ok last => success (String.join p.printed ++ last)
  | .error r => { failure r with output := String.join p.printed }

end Ending

/-- The variable that names the file of the log, which is made anew before the command line is
read. -/
def logVariable : String := "TUNER_LOG_FILE"

/-- What the program is to do. -/
inductive Plan where
  /-- Nothing more. -/
  | finish (e : Ending)
  /-- Print the settings and save them. -/
  | save (s : Settings)
  /-- Connect to a URL and run a session until a job is done. -/
  | connect (url : String) (s : Session) (job : Job)

namespace Settings

/-- What is printed of the settings. -/
def listing (s : Settings) : String := s.text ++ "\n"

/-- The end of a program that saved the settings in a directory. -/
def saved (s : Settings) (directory : String) : Ending :=
  .success (s.listing ++ s!"Saved to {directory}\n")

/-- The end of a program that could not write the file of the settings. -/
def notSaved (s : Settings) (path reason : String) : Ending :=
  { Ending.failure ⟨s!"Failed to write {path}", [reason]⟩ with output := s.listing }

end Settings

namespace Plan

/-- The value that the text of an argument stands for. -/
def readArgument (text : String) : Except Report Value :=
  match Json.read text.toList with
  | .error complaint => .error ⟨s!"Invalid JSON {quoted text}", [complaint.message]⟩
  | .ok v =>
    match Value.ofJson? v with
    | some val => .ok val
    | none => .error (.bare s!"{text} is not a parameter value")

/-- The plan of an invocation under the settings in effect. -/
def ofInvocation (s : Settings) : Invocation → Plan
  | .watch url node =>
    let s := s.withOptions url node
    connect s.serverUrl (.new s.preferredNode) (.watch s.printOnChange)
  | .dump url node =>
    let s := s.withOptions url node
    connect s.serverUrl (.new s.preferredNode) .dump
  | .set url node id value =>
    match readArgument value with
    | .ok val => connect (s.withOptions url none).serverUrl (.pinnedTo node) (.set id val)
    | .error r => finish (.failure r)
  | .config true => save s
  | .config false => finish (.success s.listing)
  | .help => finish (.success Ending.usageText)
  | .version => finish (.success Ending.versionText)

/-- How the program ends when the words of its command line say all there is to know. -/
def withoutSettings? (words : List String) : Option Ending :=
  match Invocation.parse words with
  | .error fault => some (.usage fault)
  | .ok .help => some (.success Ending.usageText)
  | .ok .version => some (.success Ending.versionText)
  | .ok _ => none

/-- The plan of the words of a command line. -/
def make (words : List String) (file : Except SettingsFault Settings)
    (env : Settings.Environment) : Plan :=
  match Invocation.parse words with
  | .ok invocation => ofInvocation (Settings.load file env) invocation
  | .error fault => finish (.usage fault)

end Plan

end LiveTuner
