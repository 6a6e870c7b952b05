import LiveTuner.Decimal.Basic

/-!
# Shortest decimals

The decimal written for a double-precision value is the one with the fewest digits that reads back
as that value; among several of that length, the nearest. Where two are equally near, the written
form decides by a `Tie` which of them is taken.

## Main definitions

* `Tie` — which of two equally near decimals is written
* `Decimal.candidates` — the two neighbours of a quotient on a decimal grid, the nearer one first
* `Decimal.shortest` — the decimal written for a positive finite rank

## Main results

* `Decimal.nearestRank_of_find?` — what a search among candidates finds reads back
-/

namespace LiveTuner

/-- Which of two equally near decimals of the same length is written. -/
inductive Tie where
  /-- The one whose last digit is even. -/
  | even
  /-- The greater one. -/
  | up
deriving DecidableEq, Repr

namespace Decimal

/-- The two neighbours of `num / den` among the multiples of `10 ^ unit`, the preferred one first:
the nearer one, or the one that `tie` names. -/
def candidates (tie : Tie) (num den : Nat) (unit : Int) : List Decimal :=
  let (n, d) := gridQuotient num den unit
  let below := n / d
  let twice := 2 * (n % d)
  let upFirst : Bool :=
    if twice = d then (tie == .up || below % 2 == 1) else decide (d < twice)
  if upFirst then [⟨below + 1, unit⟩, ⟨below, unit⟩] else [⟨below, unit⟩, ⟨below + 1, unit⟩]

/-- Whether the decimal reads back as the value of the given rank. -/
def readsBack (rank : Nat) (d : Decimal) : Bool := d.nearestRank == rank

/-- The first decimal that reads back among those of `length`, `length + 1`, … significant digits,
trying `lengths` lengths; `order` is the order of the value. -/
def search (tie : Tie) (rank : Nat) (order : Int) : Nat → Nat → Option Decimal
  | 0, _ => none
  | lengths + 1, length =>
    let unit := order - (length : Int) + 1
    match (candidates tie (Binary64.quanta rank) Binary64.quantaPerOne unit).find?
        (readsBack rank) with
    | some d => some d
    | none => search tie rank order lengths (length + 1)

theorem nearestRank_of_find? {rank : Nat} {ds : List Decimal} {d : Decimal}
    (h : ds.find? (readsBack rank) = some d) : d.nearestRank = rank := by
  simpa [readsBack] using List.find?_some h

theorem nearestRank_of_search {tie : Tie} {rank : Nat} {order : Int} {lengths length : Nat}
    {d : Decimal} (h : search tie rank order lengths length = some d) : d.nearestRank = rank := by
  induction lengths generalizing length with
  | zero => simp [search] at h
  | succ lengths ih =>
    simp only [search] at h
    split at h
    · next hf => exact nearestRank_of_find? (Option.some.inj h ▸ hf)
    · exact ih h

/-- All digits of the value of a finite rank: every quantum is a whole number of `10 ^ -1074`. -/
def exact (rank : Nat) : Decimal := ⟨Binary64.quanta rank * Nat.pow 5 1074, -1074⟩

/-- The decimal written for a positive finite rank: of those that read back, one with the fewest
digits, and of these the nearest. Seventeen digits always suffice; should they not, all digits of
the value are given. -/
def shortest (tie : Tie) (rank : Nat) : Decimal :=
  let order := decimalOrder (Binary64.quanta rank) Binary64.quantaPerOne
  ((search tie rank order 17 1).getD (exact rank)).trim

end Decimal

end LiveTuner
