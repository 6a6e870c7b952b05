import LiveTuner.Endpoint
import LiveTuner.Json.Record
import LiveTuner.Json.Writer
import LiveTuner.Path

/-!
# Settings

The settings of the program are kept in a file as a JSON object. Settings that the file leaves out
have their defaults; so have all of them if the file cannot be read. Environment variables take
precedence over the file, and options of the command line over both.

## Main definitions

* `Settings` — the settings
* `Settings.read`, `Settings.text` — settings as the text of a file
* `Settings.directory` — where the file is
* `Settings.load` — the settings that are in effect
* `SettingsFault` — why a file holds no settings
-/

namespace LiveTuner

/-- The settings of the program. -/
structure Settings where
  /-- The endpoint of the server. -/
  url : String
  /-- The node to pick when it is listed. -/
  preferredNode : Option String
  /-- Whether the parameters are shown whenever they change. -/
  printOnChange : Bool
deriving DecidableEq, Repr

/-- Why a file holds no settings. -/
inductive SettingsFault where
  /-- The file cannot be read, for the reason that the system gives. -/
  | unreadable (path : String) (reason : String)
  /-- The file holds something else. -/
  | invalid (path : String) (complaint : Json.Complaint)
deriving DecidableEq, Repr

/-- The report of a fault. -/
def SettingsFault.report : SettingsFault → Report
  | .unreadable path reason => ⟨s!"Failed to read {path}", [reason]⟩
  | .invalid path complaint => ⟨s!"Invalid config {path}", [complaint.message]⟩

namespace Settings

/-- The settings when nothing is said about them. -/
def defaults : Settings := ⟨"ws://127.0.0.1:8080/ws", none, true⟩

instance : Inhabited Settings := ⟨defaults⟩

/-! ### Files -/

/-- The settings that a file gave so far. -/
structure Draft where
  /-- The endpoint, once given. -/
  url : Option String
  /-- The preferred node or that there is none, once given. -/
  preferredNode : Option (Option String)
  /-- Whether to show changes, once given. -/
  printOnChange : Option Bool

/-- The settings of a draft, with defaults for what was not given. -/
def Draft.complete (draft : Draft) : Settings where
  url := draft.url.getD defaults.url
  preferredNode := draft.preferredNode.getD defaults.preferredNode
  printOnChange := draft.printOnChange.getD defaults.printOnChange

/-- The key of the endpoint. -/
def urlKey : String := "url"

/-- The key of the preferred node. -/
def nodeKey : String := "preferred_node"

/-- The key of the choice to show changes. -/
def printKey : String := "print_on_change"

/-- The record in a file of settings. -/
def shape : Json.RecordShape Draft Settings where
  expected := .settings
  fields := [
    ⟨urlKey, fun d => d.url.isSome, fun d text =>
      (Json.readStringField text).map fun (url, rest) => ({ d with url := some url }, rest)⟩,
    ⟨nodeKey, fun d => d.preferredNode.isSome, fun d text =>
      (Json.readOptionalString text).map fun (node, rest) =>
        ({ d with preferredNode := some node }, rest)⟩,
    ⟨printKey, fun d => d.printOnChange.isSome, fun d text =>
      (Json.readBool text).map fun (b, rest) => ({ d with printOnChange := some b }, rest)⟩]
  start := ⟨none, none, none⟩
  complete draft := .ok draft.complete

/-- The settings that a text holds. -/
def read (text : String) : Except Json.Complaint Settings :=
  Json.readWholeRecord shape text.toList

/-- The settings in the file at `path`, of which `content` is what reading it gave: the text, or the
reason that there is none. -/
def ofFile (path : String) (content : Except String String) : Except SettingsFault Settings :=
  match content with
  | .error reason => .error (.unreadable path reason)
  | .ok text =>
    match read text with
    | .ok settings => .ok settings
    | .error complaint => .error (.invalid path complaint)

/-- The path of the file of settings in a directory. -/
def filePath (directory : String) : String := Path.within directory "config.json"

/-- The variable that names the directory of the settings. -/
def directoryVariable : String := "TUNER_CONFIG_DIR"

/-- The variable that names the directory of all settings of the user. -/
def allVariable : String := "XDG_CONFIG_HOME"

/-- The variable that names the home of the user. -/
def homeVariable : String := "HOME"

/-- The directory of the settings: the one that is named for the program, else one in the directory
of all settings of the user, which lies in the user's home unless an absolute path is given. -/
def directory (own all home : Option String) : Option String :=
  let all := (all.filter Path.isFromRoot).or (home.map (Path.within · ".config"))
  own.or (all.map (Path.within · "tuner"))

/-- The settings as data; a preferred node that is absent is left out. -/
def toJson (s : Settings) : Json :=
  .object ([(urlKey, .string s.url)]
    ++ (match s.preferredNode with
      | some node => [(nodeKey, .string node)]
      | none => [])
    ++ [(printKey, .bool s.printOnChange)])

/-- The settings as the text of a file. -/
def text (s : Settings) : String := s.toJson.pretty

/-! ### Layers -/

/-- What the environment says about the settings. -/
structure Environment where
  /-- The endpoint. -/
  url : Option String
  /-- The preferred node; an empty text stands for none. -/
  node : Option String
deriving DecidableEq, Repr

/-- The name of the variable of the endpoint. -/
def urlVariable : String := "TUNER_URL"

/-- The name of the variable of the preferred node. -/
def nodeVariable : String := "TUNER_NODE"

/-- The settings after the environment has had its say. -/
def override (env : Environment) (s : Settings) : Settings where
  url := env.url.getD s.url
  preferredNode :=
    match env.node with
    | some node => if node = "" then none else some node
    | none => s.preferredNode
  printOnChange := s.printOnChange

/-- The settings in effect: those of the file, or the defaults if it gave none, after the
environment has had its say. -/
def load (file : Except SettingsFault Settings) (env : Environment) : Settings :=
  match file with
  | .ok s => s.override env
  | .error _ => defaults.override env

/-- The settings after options of the command line, where given. -/
def withOptions (url node : Option String) (s : Settings) : Settings where
  url := url.getD s.url
  preferredNode := node.or s.preferredNode
  printOnChange := s.printOnChange

/-- The URL to connect to. -/
def serverUrl (s : Settings) : String := endpointUrl s.url

end Settings

end LiveTuner
