import LiveTuner.Command

/-!
# The console

While a run is watched its user may type commands. What is typed comes in pieces of octets, cut
anywhere; each line that ends is a command, or a complaint is shown. Blank lines mean nothing. No
line is read after the one that asks to shut down, nor after one that is no text.

## Main definitions

* `Console` — the console of a run
* `Typed` — what a line comes to
* `Console.enter`, `Console.close` — octets come in, and there will be no more
-/

namespace LiveTuner

/-- What a line comes to. -/
inductive Typed where
  /-- A command for the run. -/
  | command (c : Command)
  /-- A complaint for the user. -/
  | complaint (fault : CommandFault)
deriving DecidableEq, Repr

/-- The console of a run. -/
structure Console where
  /-- The octets of the line that has not ended, the last first. -/
  pending : List UInt8
  /-- Whether lines are still read. -/
  isOpen : Bool
deriving DecidableEq, Repr

namespace Console

/-- A console at which nothing was typed. -/
def fresh : Console := ⟨[], true⟩

/-- A console that reads no more. -/
def closed : Console := ⟨[], false⟩

/-- Reads the line with the given octets. -/
def readLine (octets : List UInt8) : Console × Option Typed :=
  match Utf8.decode octets with
  | .error _ => (closed, none)
  | .ok text =>
    match words text with
    | [] => (fresh, none)
    | line =>
      match Command.ofWords line with
      | .ok .shutdown => (closed, some (.command .shutdown))
      | .ok c => (fresh, some (.command c))
      | .error fault => (fresh, some (.complaint fault))

/-- An octet comes in. -/
def enterOctet (c : Console) (b : UInt8) : Console × Option Typed :=
  if !c.isOpen then (c, none)
  else if b = 0x0a then readLine c.pending.reverse
  else ({ c with pending := b :: c.pending }, none)

/-- Octets come in; with the console, what the lines that end among them come to. -/
def enter (c : Console) : List UInt8 → Console × List Typed
  | [] => (c, [])
  | b :: rest =>
    let (c, typed) := c.enterOctet b
    let (c, later) := c.enter rest
    (c, typed.toList ++ later)

/-- No more octets come in: the line that has not ended is read. -/
def close (c : Console) : Console × List Typed :=
  if c.isOpen then (closed, (readLine c.pending.reverse).2.toList) else (c, [])

/-- However the octets are cut into pieces, the lines come to the same. -/
theorem enter_append (c : Console) (xs ys : List UInt8) :
    c.enter (xs ++ ys)
      = (((c.enter xs).1.enter ys).1, (c.enter xs).2 ++ ((c.enter xs).1.enter ys).2) := by
  induction xs generalizing c with
  | nil => rfl
  | cons b rest ih => simp [enter, ih]

end Console

end LiveTuner
