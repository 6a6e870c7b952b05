import LiveTuner.Literal
import LiveTuner.Param.Id

/-!
# The command line

    tuner watch  [--url URL] [--node NODE]
    tuner dump   [--url URL] [--node NODE]
    tuner set    [--url URL] --node NODE ID VALUE
    tuner config [--save]

A command takes options, switches and arguments. The value of an option is the next word or follows
`=`; a word that begins with `-` is a value only after `=`, except `-` itself. After `--` every word
is an argument. No option may be given twice.

Words are read in order, and the first that asks for help or the version, or that is refused,
decides.

## Main definitions

* `Invocation` — what a command line asks for
* `UsageFault` — why a command line is refused
* `Invocation.parse` — what the words of a command line ask for
-/

namespace LiveTuner

/-- What a command line asks for. -/
inductive Invocation where
  /-- Show the parameters whenever they change, and take commands. -/
  | watch (url node : Option String)
  /-- Show the parameters once. -/
  | dump (url node : Option String)
  /-- Set a parameter to the value that a text of data stands for. -/
  | set (url : Option String) (node : String) (id : ParamId) (value : String)
  /-- Show the settings, and save them if `save`. -/
  | config (save : Bool)
  /-- Show how the program is used. -/
  | help
  /-- Show the version of the program. -/
  | version
deriving DecidableEq, Repr

/-- Why a command line is refused. -/
inductive UsageFault where
  /-- There is no command. -/
  | noCommand
  /-- No command has this name. -/
  | unknownCommand (word : String)
  /-- No option has this name. -/
  | unknownOption (word : String)
  /-- An argument is one too many. -/
  | superfluous (word : String)
  /-- An option has no value. -/
  | noValue (name : String)
  /-- A switch has a value. -/
  | unneededValue (name : String)
  /-- An option is given twice. -/
  | repeated (name : String)
  /-- An option or an argument is absent. -/
  | absent (name : String)
  /-- An id is no integer. -/
  | badId (word : String) (fault : IntegerFault)
deriving DecidableEq, Repr

/-- The wording of a fault. -/
def UsageFault.message : UsageFault → String
  | .noCommand => "a command is required"
  | .unknownCommand word => s!"unrecognized command '{word}'"
  | .unknownOption word => s!"unexpected option '{word}'"
  | .superfluous word => s!"unexpected argument '{word}'"
  | .noValue name => s!"a value is required for '{name}'"
  | .unneededValue name => s!"'{name}' takes no value"
  | .repeated name => s!"'{name}' cannot be used multiple times"
  | .absent name => s!"'{name}' is required"
  | .badId word fault => s!"invalid id '{word}': {fault.message}"

/-! ### Words -/

/-- A word of a command line. -/
inductive Word where
  /-- The mark after which every word is an argument. -/
  | separator
  /-- A long option, with the value that is attached to it. -/
  | long (name : String) (attached : Option String)
  /-- Short options, the first of them apart. -/
  | short (first : Char) (rest : List Char)
  /-- Any other word. -/
  | plain
deriving DecidableEq, Repr

/-- What a word is by its look. -/
def Word.ofText (text : String) : Word :=
  match text.toList with
  | ['-', '-'] => .separator
  | '-' :: '-' :: rest =>
    let name := String.ofList (rest.takeWhile (· != '='))
    match rest.dropWhile (· != '=') with
    | [] => .long name none
    | _ :: value => .long name (some (String.ofList value))
  | '-' :: c :: rest => .short c rest
  | _ => .plain

/-! ### Commands with options -/

/-- The options that a command takes. -/
structure Usage where
  /-- The options with a value. -/
  options : List String
  /-- The options without one. -/
  switches : List String
  /-- Whether a further argument may follow so many arguments, and is a good one. -/
  accepts : Nat → String → Except UsageFault Unit

/-- The options and arguments that were given. -/
structure Given where
  /-- The options with their values. -/
  options : List (String × String)
  /-- The switches. -/
  switches : List String
  /-- The arguments, in order. -/
  arguments : List String
deriving DecidableEq, Repr

namespace Given

/-- Nothing was given. -/
def nothing : Given := ⟨[], [], []⟩

/-- The value of an option. -/
def option? (g : Given) (name : String) : Option String := g.options.lookup name

/-- One more argument. -/
def addArgument (u : Usage) (g : Given) (word : String) : Except UsageFault Given :=
  (u.accepts g.arguments.length word).map fun _ =>
    { g with arguments := g.arguments ++ [word] }

/-- One more option with its value. -/
def addOption (g : Given) (name value : String) : Except UsageFault Given :=
  if (g.option? name).isSome then .error (.repeated name)
  else .ok { g with options := (name, value) :: g.options }

/-- One more switch. -/
def addSwitch (g : Given) (name : String) : Except UsageFault Given :=
  if g.switches.contains name then .error (.repeated name)
  else .ok { g with switches := name :: g.switches }

end Given

/-- Reads the words after a command; none if help is asked for. -/
def Usage.read (u : Usage) (g : Given) : List String → Except UsageFault (Option Given)
  | [] => .ok (some g)
  | word :: rest =>
    match Word.ofText word with
    | .separator => (rest.foldlM (Given.addArgument u) g).map some
    | .plain => do u.read (← g.addArgument u word) rest
    | .short c _ => if c = 'h' then .ok none else .error (.unknownOption word)
    | .long name attached =>
      if name = "help" then
        if attached.isSome then .error (.unneededValue name) else .ok none
      else if u.switches.contains name then
        if attached.isSome then .error (.unneededValue name)
        else do u.read (← g.addSwitch name) rest
      else if u.options.contains name then
        match attached, rest with
        | some value, rest => do u.read (← g.addOption name value) rest
        | none, [] => .error (.noValue name)
        | none, value :: rest =>
          if Word.ofText value = .plain then do u.read (← g.addOption name value) rest
          else .error (.noValue name)
      else .error (.unknownOption word)

/-! ### The commands -/

/-- No argument. -/
def noArguments (_ : Nat) (word : String) : Except UsageFault Unit := .error (.superfluous word)

/-- The id that a word stands for. -/
def readIdArgument (word : String) : Except UsageFault ParamId :=
  match readInt64 word.toList with
  | .ok n => .ok ⟨n⟩
  | .error fault => .error (.badId word fault)

/-- An id and a value. -/
def idAndValue (given : Nat) (word : String) : Except UsageFault Unit :=
  match given with
  | 0 => (readIdArgument word).map fun _ => ()
  | 1 => .ok ()
  | _ => .error (.superfluous word)

/-- The option that names the endpoint. -/
def urlOption : String := "url"

/-- The option that names a node. -/
def nodeOption : String := "node"

/-- The switch that saves the settings. -/
def saveSwitch : String := "save"

/-- The options of a command that connects. -/
def connectUsage (accepts : Nat → String → Except UsageFault Unit) : Usage :=
  ⟨[urlOption, nodeOption], [], accepts⟩

/-- What is given with the command that sets a value. -/
def Invocation.ofSet (g : Given) : Except UsageFault Invocation := do
  let node ← match g.option? nodeOption with
    | some node => pure node
    | none => .error (.absent nodeOption)
  match g.arguments with
  | [] => .error (.absent "id")
  | [_] => .error (.absent "value")
  | id :: value :: _ => pure (.set (g.option? urlOption) node (← readIdArgument id) value)

namespace Invocation

/-- Reads the words after a command and makes an invocation of what they give. -/
def command (u : Usage) (make : Given → Except UsageFault Invocation) (words : List String) :
    Except UsageFault Invocation := do
  match ← u.read .nothing words with
  | none => pure help
  | some given => make given

/-- The words after the command of a given name; none if no command has the name. -/
def named? (name : String) (words : List String) : Option (Except UsageFault Invocation) :=
  match name with
  | "watch" => some (command (connectUsage noArguments)
      (fun g => .ok (watch (g.option? urlOption) (g.option? nodeOption))) words)
  | "dump" => some (command (connectUsage noArguments)
      (fun g => .ok (dump (g.option? urlOption) (g.option? nodeOption))) words)
  | "set" => some (command (connectUsage idAndValue) ofSet words)
  | "config" => some (command ⟨[], [saveSwitch], noArguments⟩
      (fun g => .ok (config (g.switches.contains saveSwitch))) words)
  | _ => none

/-- The names that help can be asked about. -/
def topics : List String := ["watch", "dump", "set", "config", "help"]

/-- The words after the command that asks for help: at most one name. -/
def ofHelp : List String → Except UsageFault Invocation
  | [] => .ok help
  | topic :: rest =>
    if !topics.contains topic then .error (.unknownCommand topic)
    else
      match rest with
      | [] => .ok help
      | word :: _ => .error (.unknownCommand word)

/-- An option in place of a command. -/
def ofOption (word : String) : Except UsageFault Invocation :=
  match Word.ofText word with
  | .long "help" none => .ok help
  | .long "version" none => .ok version
  | .short 'h' _ => .ok help
  | .short 'V' _ => .ok version
  | .plain => .error (.unknownCommand word)
  | .separator => .error .noCommand
  | _ => .error (.unknownOption word)

/-- What the words of a command line ask for. -/
def parse : List String → Except UsageFault Invocation
  | [] => .error .noCommand
  | "help" :: words => ofHelp words
  | name :: words => (named? name words).getD (ofOption name)

example : parse ["set", "--node=n", "--", "-1", "-5"] = .ok (set none "n" ⟨-1⟩ "-5") := by cbv

example : parse ["watch", "--url", "--node", "n"] = .error (.noValue "url") := by rfl

end Invocation

end LiveTuner
