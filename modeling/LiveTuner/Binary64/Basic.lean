/-!
# Double-precision numbers

Every slider position, bound and step is a double-precision binary number. The program reads,
compares, stores and prints such numbers but never adds them, so this file describes them by
what those uses need: a sign and a *rank*.

The rank counts the nonnegative values upwards. Rank `0` is zero, every next rank is the next
larger value, `infinityRank` is infinity, and the ranks above it are no numbers at all. Order,
equality and rounding are then statements about natural numbers. A finite rank stands for a whole
number of *quanta*, the smallest positive value, which is one part in `quantaPerOne`.

## Main definitions

* `Binary64` — a sign and a rank
* `Binary64.quanta` — the size of a finite rank in quanta
* `Binary64.nearestRank` — the rank nearest to a quotient, ties to the even one
* `Binary64.lt`, `Binary64.eq` — the numeric order and equality, in which nothing compares with
  a value that is no number and the two zeros are equal
* `Binary64.ofInt`, `Binary64.toInt` — the nearest value of an integer, and the integer part
-/

namespace LiveTuner

/-- A nonnegative quotient rounded to the nearest integer, a tie going to the even one. -/
def roundHalfEven (num den : Nat) : Nat :=
  let q := num / den
  let twice := 2 * (num % den)
  if twice < den then q else if den < twice then q + 1 else q + q % 2

/-- A quotient without remainder is its own rounding. -/
theorem roundHalfEven_mul (n : Nat) {den : Nat} (h : 0 < den) :
    roundHalfEven (n * den) den = n := by
  simp [roundHalfEven, Nat.mul_div_cancel n h, h]

/-- A double-precision number: its sign, and its place among the nonnegative values. -/
structure Binary64 where
  /-- Whether the sign is minus; zero has both signs. -/
  negative : Bool
  /-- The place of the absolute value in increasing order. -/
  rank : Fin 0x8000_0000_0000_0000
deriving DecidableEq, Repr, Inhabited

namespace Binary64

/-- The number of ranks from a power of two to the next. -/
def ranksPerDoubling : Nat := 0x10_0000_0000_0000

/-- The rank of infinity: all smaller ranks are finite, all larger ones are no numbers. -/
def infinityRank : Nat := 2047 * ranksPerDoubling

/-- The number of quanta in the value one. -/
def quantaPerOne : Nat := 1 <<< 1074

theorem infinityRank_lt : infinityRank < 0x8000_0000_0000_0000 := by decide

/-- Positive zero. -/
def zero : Binary64 := ⟨false, 0⟩

/-- The infinity of the given sign. -/
def infinity (negative : Bool) : Binary64 := ⟨negative, ⟨infinityRank, infinityRank_lt⟩⟩

/-- The value that is no number, with the given sign. -/
def nan (negative : Bool) : Binary64 := ⟨negative, ⟨infinityRank + ranksPerDoubling / 2, by decide⟩⟩

/-- Whether the value is no number. -/
def isNaN (x : Binary64) : Bool := infinityRank < x.rank.val

/-- Whether the value is neither infinite nor no number. -/
def isFinite (x : Binary64) : Bool := x.rank.val < infinityRank

/-- The value with the other sign. -/
def neg (x : Binary64) : Binary64 := ⟨!x.negative, x.rank⟩

/-- The value without its sign. -/
def abs (x : Binary64) : Binary64 := ⟨false, x.rank⟩

@[simp] theorem isNaN_neg (x : Binary64) : x.neg.isNaN = x.isNaN := rfl

@[simp] theorem isFinite_neg (x : Binary64) : x.neg.isFinite = x.isFinite := rfl

theorem isNaN_eq_false_of_isFinite {x : Binary64} (h : x.isFinite = true) : x.isNaN = false := by
  simp only [isFinite, isNaN, decide_eq_true_eq, decide_eq_false_iff_not] at *
  omega

/-! ### Order -/

/-- The rank with the sign of the value: the numeric order is the order of these integers. -/
def position (x : Binary64) : Int := if x.negative then -(x.rank.val : Int) else x.rank.val

/-- Numeric strict order; false when either side is no number. -/
def lt (x y : Binary64) : Bool := !x.isNaN && !y.isNaN && x.position < y.position

/-- Numeric equality; a value that is no number equals nothing, and the two zeros are equal. -/
def eq (x y : Binary64) : Bool := !x.isNaN && !y.isNaN && x.position == y.position

/-- Numeric order; false when either side is no number. -/
def le (x y : Binary64) : Bool := !x.isNaN && !y.isNaN && x.position ≤ y.position

theorem le_iff_not_lt {x y : Binary64} (hx : x.isNaN = false) (hy : y.isNaN = false) :
    x.le y = true ↔ y.lt x = false := by
  simp [le, lt, hx, hy]

/-! ### Size and rounding -/

/-- The size of a finite rank, in quanta. Up to `2 * ranksPerDoubling` the two are the same; from
there on each further `ranksPerDoubling` ranks lie twice as far apart. -/
def quanta (rank : Nat) : Nat :=
  if rank < ranksPerDoubling then rank
  else (ranksPerDoubling + rank % ranksPerDoubling) <<< (rank / ranksPerDoubling - 1)

/-- The absolute value in quanta, for a finite value. -/
def size (x : Binary64) : Nat := quanta x.rank.val

/-- The rank nearest to the quotient `num / den`, a tie going to the even rank; infinity when the
quotient is nearer to the first value past the finite ones. -/
def nearestRank (num den : Nat) : Nat :=
  let scaled := num * quantaPerOne
  let shift := Nat.log2 (scaled / den) - 52
  min (shift * ranksPerDoubling + roundHalfEven scaled (den <<< shift)) infinityRank

theorem nearestRank_lt (num den : Nat) : nearestRank num den < 0x8000_0000_0000_0000 :=
  Nat.lt_of_le_of_lt (Nat.min_le_right _ _) infinityRank_lt

/-- The value nearest to the quotient `num / den` with the given sign. -/
def ofRatio (negative : Bool) (num den : Nat) : Binary64 :=
  ⟨negative, ⟨nearestRank num den, nearestRank_lt num den⟩⟩

/-- The value nearest to an integer. -/
def ofInt (n : Int) : Binary64 := ofRatio (n < 0) n.natAbs 1

/-- The product of two finite values, rounded. -/
def mul (x y : Binary64) : Binary64 :=
  ofRatio (x.negative != y.negative) (x.size * y.size) (quantaPerOne * quantaPerOne)

/-- The quotient of a finite value by a finite one other than zero, rounded. -/
def div (x y : Binary64) : Binary64 :=
  ofRatio (x.negative != y.negative) x.size y.size

/-- Whether the value is a finite whole number. -/
def isWhole (x : Binary64) : Bool := x.isFinite && x.size % quantaPerOne == 0

/-- The integer part of a finite value, towards zero. -/
def toInt (x : Binary64) : Int :=
  let n : Int := (x.size / quantaPerOne : Nat)
  if x.negative then -n else n

/-! ### Bits -/

/-- The 64-bit pattern as a natural number: the sign above the rank. -/
def toBits (x : Binary64) : Nat := (if x.negative then 0x8000_0000_0000_0000 else 0) + x.rank.val

/-- The value of a 64-bit pattern. -/
def ofBits (bits : Nat) : Binary64 :=
  ⟨bits / 0x8000_0000_0000_0000 % 2 == 1,
    ⟨bits % 0x8000_0000_0000_0000, Nat.mod_lt _ (by decide)⟩⟩

theorem ofBits_toBits (x : Binary64) : ofBits x.toBits = x := by
  obtain ⟨negative, rank, h⟩ := x
  cases negative
  · have hd : (0 + rank) / 0x8000_0000_0000_0000 = 0 := by omega
    have hm : (0 + rank) % 0x8000_0000_0000_0000 = rank := by omega
    simp only [ofBits, toBits, Bool.false_eq_true, if_false, hd, hm]
    rfl
  · have hd : (0x8000_0000_0000_0000 + rank) / 0x8000_0000_0000_0000 = 1 := by omega
    have hm : (0x8000_0000_0000_0000 + rank) % 0x8000_0000_0000_0000 = rank := by omega
    simp only [ofBits, toBits, if_true, hd, hm]
    rfl

theorem toBits_lt (x : Binary64) : x.toBits < 0x1_0000_0000_0000_0000 := by
  have := x.rank.isLt
  simp only [toBits]
  split <;> omega

/-- The value of a 32-bit single-precision pattern, which is always exact. -/
def ofSingleBits (bits : Nat) : Binary64 :=
  let negative := bits / 0x8000_0000 % 2 == 1
  let rank := bits % 0x8000_0000
  let infinite := 255 * 0x80_0000
  if rank = infinite then infinity negative
  else if infinite < rank then nan negative
  else
    let size :=
      if rank < 0x80_0000 then rank
      else (0x80_0000 + rank % 0x80_0000) <<< (rank / 0x80_0000 - 1)
    ofRatio negative size (1 <<< 149)

end Binary64

end LiveTuner
