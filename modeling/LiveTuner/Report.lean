/-!
# Reports

A failure that ends the program is told together with what caused it, the outermost first. On one
line the causes follow after colons; over lines each has a line of its own.

## Main definitions

* `Report` — a failure with its causes
* `Report.line`, `Report.page` — a report on one line and over lines
-/

namespace LiveTuner

/-- A failure with what caused it. -/
structure Report where
  /-- What failed. -/
  failure : String
  /-- What caused it, the outermost first. -/
  causes : List String
deriving DecidableEq, Repr

namespace Report

/-- A failure without a deeper cause. -/
def bare (failure : String) : Report := ⟨failure, []⟩

/-- The report on one line. -/
def line (r : Report) : String := ": ".intercalate (r.failure :: r.causes)

/-- A text whose first line begins with `head`, the others with as many blanks. -/
def indented (head : String) (text : String) : String :=
  let blanks := String.ofList (List.replicate head.length ' ')
  head ++ String.ofList (text.toList.flatMap fun c => if c = '\n' then c :: blanks.toList else [c])

/-- The head of the line of the cause with the given number. -/
def causeHead (n : Nat) : String :=
  let digits := toString n
  String.ofList (List.replicate (5 - digits.length) ' ') ++ digits ++ ": "

/-- The lines of causes, numbered from `n`. -/
def numberedLines (n : Nat) : List String → List String
  | [] => []
  | cause :: rest => indented (causeHead n) cause :: numberedLines (n + 1) rest

/-- The lines of the causes; a single one has no number. -/
def causeLines : List String → List String
  | [cause] => [indented "    " cause]
  | causes => numberedLines 0 causes

/-- The report over lines. -/
def page (r : Report) : String :=
  match r.causes with
  | [] => s!"Error: {r.failure}\n"
  | causes =>
    s!"Error: {r.failure}\n\nCaused by:\n" ++ String.join ((causeLines causes).map (· ++ "\n"))

example : (Report.mk "a" ["b", "c"]).page = "Error: a\n\nCaused by:\n    0: b\n    1: c\n" := by
  decide

end Report

end LiveTuner
