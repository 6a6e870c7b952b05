import LiveTuner.Editor.Interaction
import LiveTuner.Json.Reader
import LiveTuner.Literal
import LiveTuner.Message.Inbound
import LiveTuner.Text.Blank

/-!
# Commands

A user at a terminal directs the program by lines of words:

    node <name>
    set <id> <json value>
    toggle <id>
    pick <id> <option index>
    component <id> <index> <value>
    quit

Words are separated by blanks. Words after those that a command needs are ignored, except that all
the words after the id of `set`, with one blank between them, are the text of the value. An id may
have any number of `#` in front.

## Main definitions

* `Command` — what the user asks for
* `CommandFault` — why a line is no command
* `Command.parse` — the command that a line is
-/

namespace LiveTuner

/-- What the user asks for. -/
inductive Command where
  /-- Select a node, or none by the reserved name. -/
  | select (node : String)
  /-- Edit a parameter. -/
  | interact (id : ParamId) (interaction : Interaction)
  /-- Write what is left and disconnect. -/
  | shutdown
deriving DecidableEq, Repr

/-- Why a line is no command. -/
inductive CommandFault where
  /-- The line has no words. -/
  | empty
  /-- No command has this name. -/
  | unknown (verb : String)
  /-- The name of the node is absent. -/
  | noNode
  /-- The id is absent. -/
  | noId
  /-- The id is no integer. -/
  | badId (word : String) (fault : IntegerFault)
  /-- The index of the option is absent. -/
  | noOptionIndex
  /-- The index of the number is absent. -/
  | noIndex
  /-- The number is absent. -/
  | noNumber
  /-- An index is none. -/
  | badIndex (fault : IntegerFault)
  /-- A number is none. -/
  | badNumber (fault : RealFault)
  /-- The text of the value is no data value. -/
  | badValue (raw : String) (complaint : Json.Complaint)
  /-- The data value is no parameter value. -/
  | notValue (raw : String)
deriving DecidableEq, Repr

/-- The wording of a fault, with its cause after a colon. -/
def CommandFault.message : CommandFault → String
  | .empty => "empty command"
  | .unknown verb => s!"unknown command {quoted verb}"
  | .noNode => "node needs a name"
  | .noId => "missing parameter id"
  | .badId word fault => s!"invalid parameter id {quoted word}: {fault.message}"
  | .noOptionIndex => "pick needs an option index"
  | .noIndex => "component needs an index"
  | .noNumber => "component needs a value"
  | .badIndex fault => fault.message
  | .badNumber fault => fault.message
  | .badValue raw complaint => s!"invalid value {quoted raw}: {complaint.message}"
  | .notValue raw => s!"{raw} is not a parameter value"

namespace Command

/-- The id that the next word stands for, and the words after it. -/
def readId : List (List Char) → Except CommandFault (ParamId × List (List Char))
  | [] => .error .noId
  | word :: rest =>
    match readInt64 (word.dropWhile (· = '#')) with
    | .ok n => .ok (⟨n⟩, rest)
    | .error fault => .error (.badId (String.ofList word) fault)

/-- The index that the next word stands for, and the words after it. -/
def readIndex (absent : CommandFault) :
    List (List Char) → Except CommandFault (Nat × List (List Char))
  | [] => .error absent
  | word :: rest =>
    match readPosition word with
    | .ok n => .ok (n, rest)
    | .error fault => .error (.badIndex fault)

/-- The number that the next word stands for. -/
def readNumber : List (List Char) → Except CommandFault Binary64
  | [] => .error .noNumber
  | word :: _ =>
    match readReal word with
    | .ok x => .ok x
    | .error fault => .error (.badNumber fault)

/-- Words with one blank between them. -/
def joinWords : List (List Char) → List Char
  | [] => []
  | [word] => word
  | word :: rest => word ++ ' ' :: joinWords rest

/-- The parameter value that a text of data stands for. -/
def readValue (raw : List Char) : Except CommandFault Value :=
  match Json.read raw with
  | .error complaint => .error (.badValue (String.ofList raw) complaint)
  | .ok v =>
    match Value.ofJson? v with
    | some val => .ok val
    | none => .error (.notValue (String.ofList raw))

/-- The command that words make up. -/
def ofWords : List (List Char) → Except CommandFault Command
  | [] => .error .empty
  | verb :: rest =>
    match String.ofList verb with
    | "node" =>
      match rest with
      | [] => .error .noNode
      | node :: _ => .ok (.select (String.ofList node))
    | "quit" => .ok .shutdown
    | "exit" => .ok .shutdown
    | "set" => do
      let (id, rest) ← readId rest
      let val ← readValue (joinWords rest)
      pure (.interact id (.setValue val))
    | "toggle" => do
      let (id, _) ← readId rest
      pure (.interact id .toggle)
    | "pick" => do
      let (id, rest) ← readId rest
      let (index, _) ← readIndex .noOptionIndex rest
      pure (.interact id (.pick index))
    | "component" => do
      let (id, rest) ← readId rest
      let (index, rest) ← readIndex .noIndex rest
      let x ← readNumber rest
      pure (.interact id (.setComponent index x))
    | other => .error (.unknown other)

/-- The command that a line is. -/
def parse (line : String) : Except CommandFault Command := ofWords (words line.toList)

end Command

end LiveTuner
