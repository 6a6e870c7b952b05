import LiveTuner.Path

/-!
# The host

The program runs on a host, which has variables, and files in directories. Nothing else is asked of
it before a connection is opened. In what way it answers is a matter of its monad: a disk that is
there answers in `IO`, and a disk that is only thought of can answer in a state.

A host makes one directory at a time, and only in a directory that is there. A directory can still
be made with all the ones it lies in: where one is missing, the way to it is made first.

## Main definitions

* `Host` — what the program asks of a host
* `Making` — what comes of making a directory
* `Host.makeDirectories` — makes a directory with those that it lies in
-/

namespace LiveTuner

/-- What comes of making a directory. The host gives the reasons. -/
inductive Making where
  /-- It is made. -/
  | made
  /-- A directory that it lies in is missing. -/
  | missing (reason : String)
  /-- It cannot be made, perhaps because it is there already. -/
  | refused (reason : String)
deriving DecidableEq, Repr

/-- What the program asks of a host. -/
structure Host (m : Type → Type) where
  /-- The value of a variable. -/
  lookUp (name : String) : m (Option String)
  /-- The text of a file, or the reason that there is none. -/
  read (path : String) : m (Except String String)
  /-- Makes a file anew with a text in it, or gives the reason that it cannot. -/
  write (path text : String) : m (Except String Unit)
  /-- Makes a directory in one that is there. -/
  makeDirectory (path : String) : m Making
  /-- Whether there is a directory at a path. -/
  isDirectory (path : String) : m Bool

namespace Host

variable {m : Type → Type} [Monad m]

/-- Makes a directory in one that is there, unless it is there itself. -/
def provideDirectory (host : Host m) (path : String) : m Making := do
  match ← host.makeDirectory path with
  | .refused reason =>
    if ← host.isDirectory path then return .made
    else return .refused reason
  | outcome => return outcome

/-- Makes the first of some directories, each of which lies in the next; gives the reason if it
cannot. The next one is made only where it is missing, and the first is then tried once more. -/
def provideFirst (host : Host m) : List String → m (Option String)
  | [] => return none
  | path :: next => do
    match ← host.provideDirectory path with
    | .made => return none
    | .refused reason => return some reason
    | .missing _ =>
      match ← host.provideFirst next with
      | some reason => return some reason
      | none =>
        match ← host.provideDirectory path with
        | .made => return none
        | .missing reason | .refused reason => return some reason

/-- Makes a directory with those that it lies in, as far as they are not there; gives the reason if
it cannot. The empty path is where the program runs, and that is there. -/
def makeDirectories (host : Host m) (path : String) : m (Option String) :=
  if path = "" then return none
  else host.provideFirst (path :: Path.stops path)

end Host

end LiveTuner
