import LiveTuner.Launch
import LiveTuner.Terminal
import LiveTuner.WebSocket.Frame
import LiveTuner.WebSocket.Handshake
import Std.Async.DNS
import Std.Async.TCP
import Std.Sync.Channel

/-!
# The executable

Everything the program decides is decided elsewhere. What is left here is to answer for the system
that it runs on, to open the connection, and to carry octets between the connection, the terminal
and the job under way.

## Main definitions

* `main` — runs the program on the words of its command line
-/

namespace LiveTuner.Executable

open Std.Async

/-! ### Errors -/

/-- What the system says about an error. The codes of network errors are negative. -/
def systemMessage (e : IO.Error) : String :=
  let told (code : UInt32) (details : String) : String :=
    let code := if code < 0x8000_0000 then code.toNat else 0x1_0000_0000 - code.toNat
    s!"{details.capitalize} (os error {code})"
  match e with
  | .otherError code details | .resourceBusy code details | .resourceVanished code details
  | .unsupportedOperation code details | .hardwareFault code details
  | .unsatisfiedConstraints code details | .illegalOperation code details
  | .protocolError code details | .timeExpired code details | .interrupted _ code details
  | .noFileOrDirectory _ code details | .alreadyExists _ code details
  | .invalidArgument _ code details | .permissionDenied _ code details
  | .resourceExhausted _ code details | .inappropriateType _ code details
  | .noSuchThing _ code details => told code details
  | .unexpectedEof => "unexpected end of file"
  | .userError details => details

/-! ### The host -/

/-- What the system says when something fails. -/
def answered {α : Type} (attempt : IO α) : IO (Except String α) := do
  return (← attempt.toBaseIO).mapError systemMessage

/-- Makes a directory in one that is there. -/
def makeDirectory (path : String) : IO Making := do
  match ← (IO.FS.createDir path).toBaseIO with
  | .ok _ => return .made
  | .error e =>
    if let .noFileOrDirectory .. := e then return .missing (systemMessage e)
    else return .refused (systemMessage e)

/-- Whether there is a directory at a path. -/
def isDirectory (path : String) : IO Bool := do
  match ← (IO.FS.realPath path).toBaseIO with
  | .ok found => found.isDir
  | .error _ => return false

/-- The system that the program runs on. -/
def system : Host IO where
  lookUp name := IO.getEnv name
  read path := answered (IO.FS.readFile path)
  write path text := answered (IO.FS.writeFile path text)
  makeDirectory := makeDirectory
  isDirectory := isDirectory

/-! ### The end of the program -/

/-- Prints what the program ends with, and gives its exit code. -/
def conclude (e : Ending) : IO UInt32 := do
  IO.print e.output
  IO.eprint e.complaint
  return UInt32.ofNat e.code

/-! ### The connection -/

/-- Opens a connection to one of the addresses of a host. -/
def dial (host : String) (service : UInt16) : List Std.Net.IPAddr → IO TCP.Socket.Client
  | [] => throw (.userError s!"no address of {host} answers")
  | address :: rest => do
    let client ← TCP.Socket.Client.mk
    let place : Std.Net.SocketAddress := match address with
      | .v4 addr => .v4 ⟨addr, service⟩
      | .v6 addr => .v6 ⟨addr, service⟩
    try
      (client.connect place).block
      return client
    catch e => if rest.isEmpty then throw e else dial host service rest

/-- Reads up to the end of the head of the server's answer. -/
partial def readAnswer (client : TCP.Socket.Client) (octets : List UInt8) :
    IO (List UInt8 × List UInt8) := do
  match WebSocket.splitAnswer octets with
  | some answer => return answer
  | none =>
    match ← (client.recv? 65536).block with
    | some more => readAnswer client (octets ++ more.toList)
    | none => throw (.userError "the connection was closed before the server answered")

/-- Opens a connection to a server; with it, the octets that came after the server's answer. -/
def openConnection (url : Url) : IO (TCP.Socket.Client × WebSocket.Inbox) := do
  if url.scheme = "wss".toList then throw (.userError "encrypted connections are not supported")
  let (host, service) := WebSocket.address url
  let addresses ← (DNS.getAddrInfo host (toString service)).block
  let client ← dial host (UInt16.ofNat service) addresses.toList
  let nonce ← IO.getRandomBytes 16
  (client.send ⟨(WebSocket.request url nonce.toList).toArray⟩).block
  let (head, rest) ← readAnswer client []
  if WebSocket.agrees head then return (client, { WebSocket.Inbox.empty with octets := rest })
  throw (.userError "the server does not take the connection")

/-! ### A job under way -/

/-- What reaches the program while a job is under way. -/
inductive Arrival where
  /-- Octets of the connection. -/
  | received (octets : List UInt8)
  /-- The end of the connection. -/
  | hungUp
  /-- A line that was typed. -/
  | typed (octets : List UInt8)
  /-- The end of what is typed. -/
  | typedAll

/-- The lines that were typed and not yet taken up. -/
abbrev Lines := Std.CloseableChannel Arrival

/-- Starts to wait for one more line. Only a program that still takes commands does so, because a
wait for a line cannot be called off. -/
def awaitLine (lines : Lines) : IO Unit := do
  let input ← IO.getStdin
  let read : IO Unit := do
    let arrival ← match ← input.getLine.toBaseIO with
      | .ok line => pure (if line.isEmpty then .typedAll else .typed line.toUTF8.toList)
      | .error _ => pure .typedAll
    discard (lines.sync.send arrival).toBaseIO
  discard (IO.asTask read .dedicated)

/-- Waits for what comes first, octets or a line. A connection that fails has ended. -/
def awaitArrival (client : TCP.Socket.Client) (lines : Lines) : IO Arrival := do
  let first : Async Arrival := Selectable.one #[
    .case (client.recvSelector 65536) fun octets? =>
      pure (octets?.elim .hungUp fun octets => .received octets.toList),
    .case lines.recvSelector fun line? => pure (line?.getD .typedAll)]
  return (← first.block.toBaseIO).toOption.getD .hungUp

/-- Carries out what a job did since it stood as in `before`: prints, complains and writes. A
failure of the connection shows when the next octets are read. -/
def carryOut (client : TCP.Socket.Client) (before after : Terminal) : IO Unit := do
  for text in after.run.memory.printed.drop before.run.memory.printed.length do
    IO.print text
  (← IO.getStdout).flush
  IO.eprint (String.ofList (after.complaints.toList.drop before.complaints.length))
  let frames ← (after.run.written.drop before.run.written.length).mapM fun t => do
    return WebSocket.encode (← IO.getRandomBytes 4).toList t
  unless frames.isEmpty do
    -- Only a wait in `IO` is kept where nobody looks at what came of the task.
    let sending : IO (ETask IO.Error Unit) := (client.send ⟨frames.flatten.toArray⟩).asTask
    discard (IO.wait (← sending))

/-- The job after something arrived. -/
def react (t : Terminal) (inbox : WebSocket.Inbox) : Arrival → Walk (Terminal × WebSocket.Inbox)
  | .received octets => do
    let (inbox, events) := inbox.receive octets
    pure (← events.foldlM Terminal.handle t, inbox)
  | .hungUp => do pure (← t.handle .ended, inbox)
  | .typed octets => do pure (← t.enter octets, inbox)
  | .typedAll => do pure (← t.close, inbox)

/-- Takes in what arrives until the job ends, and finishes it; none if it goes round for ever. -/
partial def serve (client : TCP.Socket.Client) (lines : Lines) (t : Terminal)
    (inbox : WebSocket.Inbox) (arrival : Arrival) : IO (Option Terminal) := do
  match react t inbox arrival with
  | none => return none
  | some (next, inbox) =>
    let next := if next.hasEnded then next.finish else next
    carryOut client t next
    if next.hasEnded then return some next
    if let .typed _ := arrival then
      if next.console.isOpen then awaitLine lines
    serve client lines next inbox (← awaitArrival client lines)

/-- Does a job on a connection. -/
def doJob (client : TCP.Socket.Client) (inbox : WebSocket.Inbox) (s : Session) (job : Job) :
    IO UInt32 := do
  let stuck := Ending.failure (.bare "The editors lead round for ever")
  let some t := Terminal.start job s | conclude stuck
  carryOut client { t with run := { t.run with memory := .none } } t
  let lines ← Std.CloseableChannel.new
  if job.takesCommands then awaitLine lines
  let some done ← serve client lines t inbox (.received []) | conclude stuck
  match job.conclude done.run.memory done.run.reason with
  | .ok text => conclude (.success text)
  | .error report => conclude (.failure report)

/-- Connects and does a job. -/
def connect (url : String) (parts : Url) (s : Session) (job : Job) : IO UInt32 := do
  match ← (openConnection parts).toBaseIO with
  | .error e => conclude (.failure (ConnectFault.failed url (systemMessage e)).report)
  | .ok (client, inbox) => doJob client inbox s job

end LiveTuner.Executable

/-- Runs the program on the words of its command line. -/
def main (words : List String) : IO UInt32 := do
  match ← LiveTuner.Executable.system.launch words with
  | .ended e => LiveTuner.Executable.conclude e
  | .connect url parts s job => LiveTuner.Executable.connect url parts s job
