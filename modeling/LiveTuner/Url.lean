import LiveTuner.Text.Utf8

/-!
# URLs

A URL names the server: a scheme, an authority (the host and perhaps a service number), and a
target, which is a path and a query. A text without a scheme is an authority, or it begins with a
slash and is a target.

In an authority, what stands before the last `@` names a user; a service number may follow one
colon, and brackets surround an address that has colons of its own. The target keeps what is after
the authority up to `#`.

## Main definitions

* `Url` — the parts of a URL
* `UrlFault` — why a text is no URL of a server
* `Url.parse` — the parts of a text
-/

namespace LiveTuner

/-- The parts of a URL. -/
structure Url where
  /-- The scheme; empty if there is none. -/
  scheme : List Char
  /-- The authority. -/
  authority : List Char
  /-- The path and the query. -/
  target : List Char
deriving DecidableEq, Repr

/-- Why a text is no URL of a server. -/
inductive UrlFault where
  /-- The text is empty, or nothing comes after its scheme. -/
  | empty
  /-- The text is too long. -/
  | tooLong
  /-- The scheme is too long. -/
  | schemeTooLong
  /-- A character may not stand where it does. -/
  | badCharacter
  /-- The authority is malformed. -/
  | badAuthority
  /-- There is no authority where one is needed, or something comes after one without a scheme. -/
  | badFormat
  /-- There is no authority. -/
  | noHost
deriving DecidableEq, Repr

/-- What caused a fault, the outermost first. -/
def UrlFault.causes (fault : UrlFault) : List String :=
  let format (cause : String) := ["HTTP format error: " ++ cause, cause]
  match fault with
  | .empty => format "empty string"
  | .tooLong => format "uri too long"
  | .schemeTooLong => format "scheme too long"
  | .badCharacter => format "invalid uri character"
  | .badAuthority => format "invalid authority"
  | .badFormat => format "invalid format"
  | .noHost => ["URL error: No host name in the URL", "No host name in the URL"]

namespace Url

/-! ### Characters -/

/-- A letter or a digit of ASCII. -/
def isAlphanumeric (c : Char) : Bool := c.isAlpha || c.isDigit

/-- The characters of a scheme. -/
def isSchemeChar (c : Char) : Bool := isAlphanumeric c || "+-.~".toList.contains c

/-- The characters that end an authority. -/
def endsAuthority (c : Char) : Bool := c == '/' || c == '?' || c == '#'

/-- The characters that may stand in an authority, apart from those that end it and the percent
sign. -/
def isAuthorityChar (c : Char) : Bool :=
  isAlphanumeric c || "!$&'()*+,-.:;=@[]_~".toList.contains c

/-- The characters that may stand in a target: all outside ASCII, and of ASCII those that a path or
a query takes without a percent sign. -/
def isTargetChar (inQuery : Bool) (c : Char) : Bool :=
  let n := c.toNat
  if 0x7f ≤ n then n != 0x7f
  else if inQuery then n == 0x21 || (0x24 ≤ n && n ≤ 0x3b) || n == 0x3d || 0x3f ≤ n
  else
    n == 0x21 || n == 0x22 || (0x24 ≤ n && n ≤ 0x3b) || n == 0x3d || (0x40 ≤ n && n ≤ 0x5f)
      || 0x61 ≤ n

/-! ### Scheme -/

/-- The greatest length of a scheme. -/
def maxSchemeLength : Nat := 64

/-- The scheme and what comes after `://`; none if the text has no scheme. -/
def splitScheme (text : List Char) : Except UrlFault (Option (List Char × List Char)) :=
  match text.dropWhile isSchemeChar with
  | ':' :: '/' :: '/' :: rest =>
    let scheme := text.takeWhile isSchemeChar
    if scheme = [] ∧ rest = [] then .ok none
    else if maxSchemeLength < scheme.length then .error .schemeTooLong
    else .ok (some (scheme, rest))
  | _ => .ok none

/-! ### Authority -/

/-- The greatest number of colons in a user or an address. -/
def maxColons : Nat := 8

/-- What is known of an authority while it is read. -/
structure Survey where
  /-- The colons since the last `@` or closing bracket. -/
  colons : Nat
  /-- Whether a bracket was opened. -/
  opened : Bool
  /-- Whether a bracket was closed. -/
  closed : Bool
  /-- Whether there was a percent sign since the last `@` or closing bracket. -/
  percent : Bool
  /-- Whether the last character was an `@`. -/
  afterAt : Bool

/-- What is known after one more character. -/
def Survey.add (s : Survey) (c : Char) : Except UrlFault Survey :=
  let s := { s with afterAt := false }
  if c = ':' then
    if maxColons ≤ s.colons then .error .badAuthority else .ok { s with colons := s.colons + 1 }
  else if c = '[' then
    if s.percent || s.opened then .error .badAuthority else .ok { s with opened := true }
  else if c = ']' then
    if !s.opened || s.closed then .error .badAuthority
    else .ok { s with closed := true, colons := 0, percent := false }
  else if c = '@' then .ok { s with colons := 0, percent := false, afterAt := true }
  else if c = '%' then .ok { s with percent := true }
  else if isAuthorityChar c then .ok s
  else .error .badCharacter

/-- Whether what is known at the end of an authority makes a good one. -/
def Survey.isGood (s : Survey) : Bool :=
  s.opened == s.closed && s.colons ≤ 1 && !s.afterAt && !s.percent

/-- The authority at the start of a text, which may be empty, and what comes after it. -/
def splitAuthority (text : List Char) : Except UrlFault (List Char × List Char) := do
  let authority := text.takeWhile (!endsAuthority ·)
  let survey ← authority.foldlM Survey.add ⟨0, false, false, false, false⟩
  if survey.isGood then pure (authority, text.dropWhile (!endsAuthority ·))
  else .error .badAuthority

/-! ### Target -/

/-- Reads a path and a query up to `#`. -/
def readTarget (inQuery : Bool) : List Char → Except UrlFault (List Char)
  | [] => .ok []
  | c :: rest =>
    if c = '#' then .ok []
    else if c = '?' ∧ !inQuery then (readTarget true rest).map (c :: ·)
    else if isTargetChar inQuery c then (readTarget inQuery rest).map (c :: ·)
    else .error .badCharacter

/-! ### The whole -/

/-- The greatest number of octets of a URL. -/
def maxOctets : Nat := 65534

/-- The parts of a text with a scheme. -/
def ofScheme (scheme rest : List Char) : Except UrlFault Url := do
  if rest = [] then .error .empty
  else
    let (authority, rest) ← splitAuthority rest
    if authority = [] then .error .badFormat
    else pure ⟨scheme, authority, ← readTarget false rest⟩

/-- The parts of a text that is an authority alone. -/
def ofAuthority (text : List Char) : Except UrlFault Url := do
  let (authority, rest) ← splitAuthority text
  if rest ≠ [] then .error (if text.length = 1 then .badCharacter else .badFormat)
  else pure ⟨[], authority, []⟩

/-- The parts of a text that names a server. -/
def parse (text : List Char) : Except UrlFault Url :=
  if maxOctets < Utf8.octetCount text then .error .tooLong
  else
    match text with
    | [] => .error .empty
    | ['*'] => .error .noHost
    | '/' :: _ => do
      let _ ← readTarget false text
      .error .noHost
    | _ => do
      match ← splitScheme text with
      | some (scheme, rest) => ofScheme scheme rest
      | none => ofAuthority text

example : parse "ws://box:80/ws?a#b".toList
    = .ok ⟨"ws".toList, "box:80".toList, "/ws?a".toList⟩ := by rfl

example : parse "ws://not a url".toList = .error .badCharacter := by rfl

example : parse "ws://".toList = .error .empty := by rfl

example : parse "ws:///x".toList = .error .badFormat := by rfl

end Url

end LiveTuner
