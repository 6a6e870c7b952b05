import LiveTuner.Text.Piece

/-!
# Blanks and words

A command line is cut into words at blanks. Blank are the white-space characters of all scripts,
not only those of ASCII.

## Main definitions

* `isBlank` — the white-space characters
* `words` — the maximal runs of characters that are not blank
-/

namespace LiveTuner

/-- Whether the character is white space. -/
def isBlank (c : Char) : Bool :=
  let n := c.toNat
  (0x9 ≤ n && n ≤ 0xd) || n == 0x20 || n == 0x85 || n == 0xa0 || n == 0x1680
    || (0x2000 ≤ n && n ≤ 0x200a) || n == 0x2028 || n == 0x2029 || n == 0x202f || n == 0x205f
    || n == 0x3000

/-- The words of a text in order: its maximal runs of characters that are not blank. -/
def words (text : List Char) : List (List Char) := pieces isBlank text

example : words " set\t1  x ".toList = ["set".toList, "1".toList, "x".toList] := by decide

/-- A blank in front does not change the words. -/
theorem words_cons_of_isBlank {c : Char} (h : isBlank c = true) (text : List Char) :
    words (c :: text) = words text :=
  pieces_cons_of_cuts h text

end LiveTuner
