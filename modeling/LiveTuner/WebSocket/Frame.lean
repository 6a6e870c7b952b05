import LiveTuner.Client.Run
import LiveTuner.MessagePack.Token
import LiveTuner.MessagePack.Writer

/-!
# Frames of a connection

On a connection everything travels in frames: a first octet with a mark for the last fragment and
the opcode, the length of the payload, and the payload. What a client writes is masked with a key of
four octets that changes from frame to frame; what a server writes is not. A message may come in
fragments, between which pings may stand.

## Main definitions

* `WebSocket.encode` — the octets of something written to the connection
* `WebSocket.Inbox` — the octets that came in and have not been read
* `WebSocket.Inbox.receive` — more octets come in; the events that they complete
-/

namespace LiveTuner.WebSocket

/-! ### Opcodes -/

/-- The opcode of a further fragment. -/
def continuationCode : Nat := 0

/-- The opcode of a text. -/
def textCode : Nat := 1

/-- The opcode of octets that need not be a text. -/
def binaryCode : Nat := 2

/-- The opcode of a close. -/
def closeCode : Nat := 8

/-- The opcode of a ping. -/
def pingCode : Nat := 9

/-- The opcode of the answer to a ping. -/
def pongCode : Nat := 10

/-! ### Writing -/

/-- Octets combined with a key that is repeated as often as needed. -/
def mask (key : List UInt8) (octets : List UInt8) : List UInt8 :=
  octets.zipIdx.map fun (b, i) => b ^^^ (key[i % key.length]?).getD 0

/-- The length of a masked payload. -/
def maskedLength (n : Nat) : List UInt8 :=
  if n < 126 then [UInt8.ofNat (0x80 + n)]
  else if n < 0x1_0000 then 0xfe :: MessagePack.octetsOf 2 n
  else 0xff :: MessagePack.octetsOf 8 n

/-- A whole message or a control frame. -/
def frame (key : List UInt8) (opcode : Nat) (payload : List UInt8) : List UInt8 :=
  UInt8.ofNat (0x80 + opcode) :: maskedLength payload.length ++ key ++ mask key payload

/-- What is written to the connection, masked with a key. -/
def encode (key : List UInt8) : Transmission → List UInt8
  | .message m =>
    let f := m.encode
    let opcode := match f with
      | .text _ => textCode
      | .binary _ => binaryCode
    frame key opcode f.payload
  | .pong payload => frame key pongCode payload
  | .close => frame key closeCode []

/-! ### Reading -/

/-- A frame of the server. -/
structure Incoming where
  /-- Whether it is the last fragment of a message. -/
  isLast : Bool
  /-- What it is. -/
  opcode : Nat
  /-- What it carries. -/
  payload : List UInt8

/-- What the first octets of a connection are. -/
inductive Reading where
  /-- The beginning of a frame. -/
  | incomplete
  /-- A frame and what comes after it. -/
  | complete (f : Incoming) (rest : List UInt8)
  /-- No frame of a server. -/
  | malformed

/-- A frame whose payload of the given length comes next. -/
def readPayload (isLast : Bool) (opcode length : Nat) (octets : List UInt8) : Reading :=
  match MessagePack.splitOctets length octets with
  | some (payload, rest) => .complete ⟨isLast, opcode, payload⟩ rest
  | none => .incomplete

/-- A frame whose length comes next in `width` octets. -/
def readLength (isLast : Bool) (opcode width : Nat) (octets : List UInt8) : Reading :=
  match MessagePack.splitOctets width octets with
  | some (length, rest) => readPayload isLast opcode (MessagePack.bigEndian length) rest
  | none => .incomplete

/-- The frame at the start of the octets. -/
def readFrame : List UInt8 → Reading
  | first :: second :: rest =>
    let isLast := 0x80 ≤ first
    let opcode := first.toNat % 0x10
    if first.toNat / 0x10 % 8 ≠ 0 ∨ 0x80 ≤ second then .malformed
    else if second = 126 then readLength isLast opcode 2 rest
    else if second = 127 then readLength isLast opcode 8 rest
    else readPayload isLast opcode second.toNat rest
  | _ => .incomplete

/-- The octets that came in and have not been read. -/
structure Inbox where
  /-- The octets of frames that are not complete. -/
  octets : List UInt8
  /-- The payload of a message whose last fragment has not come. -/
  fragments : Option (List UInt8)

namespace Inbox

/-- Nothing came in. -/
def empty : Inbox := ⟨[], none⟩

/-- A frame is taken out of the inbox; an event if it completes one. -/
def accept (inbox : Inbox) (f : Incoming) : Inbox × Option Event :=
  if f.opcode = pingCode then (inbox, some (.ping f.payload))
  else if f.opcode = pongCode then (inbox, none)
  else if f.opcode = textCode ∨ f.opcode = binaryCode ∨ f.opcode = continuationCode then
    match inbox.fragments, decide (f.opcode = continuationCode) with
    | some before, true =>
      if f.isLast then ({ inbox with fragments := none }, some (.frame (before ++ f.payload)))
      else ({ inbox with fragments := some (before ++ f.payload) }, none)
    | none, false =>
      if f.isLast then (inbox, some (.frame f.payload))
      else ({ inbox with fragments := some f.payload }, none)
    | _, _ => (inbox, some .ended)
  else (inbox, some .ended)

/-- Takes at most `bound` frames out of the inbox. -/
def acceptAll : Nat → Inbox → Inbox × List Event
  | 0, inbox => (inbox, [])
  | bound + 1, inbox =>
    match readFrame inbox.octets with
    | .incomplete => (inbox, [])
    | .malformed => (inbox, [.ended])
    | .complete f rest =>
      let (inbox, event) := { inbox with octets := rest }.accept f
      let (inbox, later) := acceptAll bound inbox
      (inbox, event.toList ++ later)

/-- More octets come in. A frame takes two octets at least, so there are no more frames than
octets. -/
def receive (inbox : Inbox) (octets : List UInt8) : Inbox × List Event :=
  let octets := inbox.octets ++ octets
  acceptAll octets.length { inbox with octets }

end Inbox

example : encode [1, 2, 3, 4] (.pong [9]) = [0x8a, 0x81, 1, 2, 3, 4, 8] := by decide

example : (Inbox.empty.receive [0x01, 1, 0x61, 0x89, 0, 0x80, 1, 0x62]).2
    = [.ping [], .frame [0x61, 0x62]] := by decide

end LiveTuner.WebSocket
