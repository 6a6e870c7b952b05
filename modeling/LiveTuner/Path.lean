import LiveTuner.Text.Piece

/-!
# Paths

A path leads to a file or a directory by names with slashes between them, from the root if a slash
stands in front. The name of two dots leads back to the directory before, whichever that is on the
disk, so it is a name like all others here; a single dot stays where it is and is passed over.

## Main definitions

* `Path.names` — the names along a path
* `Path.stops` — the directories that a path leads through
* `Path.within` — the path of a name in a directory
-/

namespace LiveTuner.Path

/-- Whether a path leads from the root. -/
def isFromRoot (path : String) : Bool := path.toList.head? == some '/'

/-- The names along a path. -/
def names (path : String) : List (List Char) :=
  (pieces (· == '/') path.toList).filter (· ≠ ['.'])

/-- The paths to the names after a start, the last first and without the way to the last name. -/
def stopsAfter (start : List Char) : List (List Char) → List (List Char)
  | [] | [_] => []
  | name :: rest => stopsAfter (start ++ name ++ ['/']) rest ++ [start ++ name]

/-- All names but the last have a path. -/
theorem length_stopsAfter (start : List Char) (names : List (List Char)) :
    (stopsAfter start names).length = names.length - 1 := by
  fun_induction stopsAfter start names with
  | case1 => rfl
  | case2 => rfl
  | case3 start name rest hrest ih =>
    have hne : rest ≠ [] := fun h => hrest (by simp [h])
    have hpos := List.length_pos_iff.2 hne
    simp only [List.length_append, ih, List.length_cons, List.length_nil]
    omega

/-- The paths of the directories that a path leads through, the last first. Left out are the
directory where it starts and the one where it ends. -/
def stops (path : String) : List String :=
  (stopsAfter (if isFromRoot path then ['/'] else []) (names path)).map String.ofList

example : stops "/a/./b//../c/." = ["/a/b/..", "/a/b", "/a"] := by decide

example : stops "a/b" = ["a"] ∧ stops "a/" = [] ∧ stops "/" = [] := by decide

/-- The path of a name within a directory. -/
def within (directory name : String) : String :=
  if directory = "" ∨ directory.toList.getLast? = some '/' then directory ++ name
  else directory ++ "/" ++ name

end LiveTuner.Path
