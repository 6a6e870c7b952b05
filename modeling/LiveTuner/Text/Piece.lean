/-!
# Pieces

A text is cut into pieces at the characters of a class. The pieces are the maximal runs of other
characters, so none is empty, and how many characters stand between two of them does not matter.

## Main definitions

* `pieces` — the pieces of a text
-/

namespace LiveTuner

/-- The characters up to the first that cuts, and the pieces after it. -/
def leadingPiece (cuts : Char → Bool) : List Char → List Char × List (List Char)
  | [] => ([], [])
  | c :: rest =>
    let (piece, later) := leadingPiece cuts rest
    if cuts c then ([], if piece.isEmpty then later else piece :: later) else (c :: piece, later)

/-- The pieces of a text in order: its maximal runs of characters that do not cut. -/
def pieces (cuts : Char → Bool) (text : List Char) : List (List Char) :=
  let (piece, later) := leadingPiece cuts text
  if piece.isEmpty then later else piece :: later

/-- A character that cuts does not change the pieces after it. -/
theorem pieces_cons_of_cuts {cuts : Char → Bool} {c : Char} (h : cuts c = true)
    (text : List Char) : pieces cuts (c :: text) = pieces cuts text := by
  simp [pieces, leadingPiece, h]

end LiveTuner
