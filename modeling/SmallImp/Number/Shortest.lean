/-
# The shortest decimal that reads back

The reals that round to a positive binary64 number form an interval around it, whose
ends belong to it exactly when the rank is even.  Among the decimals of the interval
the one with the fewest digits is a multiple of the greatest power of ten that has a
multiple there; of several such multiples the nearest to the number counts, of two
equally near ones the even one.
-/
import SmallImp.Number.Binary64

namespace SmallImp

/-- The decimal `coefficient * 10 ^ exponent`. -/
structure Decimal where
  coefficient : Nat
  exponent : Int
  deriving DecidableEq

namespace Decimal

/-- The digits of a natural number, the most significant first. -/
def digits (n : Nat) : List Char := Nat.toDigits 10 n

/-- The interval of the reals that round to one number, in half units. -/
structure Interval where
  low : Nat
  middle : Nat
  high : Nat
  /-- Whether the two ends belong to it. -/
  closed : Bool

/-- The interval of the finite magnitude at a positive rank. -/
def Interval.ofRank (rank : Nat) : Interval where
  low := Binary64.units (rank - 1) + Binary64.units rank
  middle := 2 * Binary64.units rank
  high := Binary64.units rank + Binary64.units (rank + 1)
  closed := rank % 2 == 0

/-- A power of ten as a quotient of natural numbers. -/
def powerOfTen (exponent : Int) : Nat × Nat :=
  (Nat.pow 10 exponent.toNat, Nat.pow 10 (-exponent).toNat)

/-- Whether `coefficient * 10 ^ exponent` lies in an interval. -/
def Interval.contains (interval : Interval) (coefficient : Nat) (exponent : Int) : Bool :=
  let (up, down) := powerOfTen exponent
  let point := coefficient * up * (2 * Binary64.unitsPerOne)
  if interval.closed then interval.low * down ≤ point && point ≤ interval.high * down
  else interval.low * down < point && point < interval.high * down

/-- The multiple of `10 ^ exponent` in an interval that is nearest to its middle: one of the
two around the middle. -/
def Interval.nearest? (interval : Interval) (exponent : Int) : Option Nat :=
  let (up, down) := powerOfTen exponent
  let step := up * (2 * Binary64.unitsPerOne)
  let target := interval.middle * down
  let below := target / step
  let rest := target % step
  let above := step < 2 * rest ∨ (step = 2 * rest ∧ below % 2 = 1)
  let near := if above then below + 1 else below
  let far := if above then below else below + 1
  if interval.contains near exponent then some near
  else if interval.contains far exponent then some far
  else none

/-- The decimal found at the greatest of the exponents from `count - 325` down to `-324`. -/
def Interval.search (interval : Interval) : (count : Nat) → Decimal
  | 0 => ⟨0, 0⟩
  | count + 1 =>
    let exponent : Int := count - 324
    match interval.nearest? exponent with
    | some coefficient => ⟨coefficient, exponent⟩
    | none => interval.search count

/-- The number of digits before the point of the upper end of an interval. -/
def Interval.wholeDigits (interval : Interval) : Nat :=
  (digits (interval.high / (2 * Binary64.unitsPerOne))).length

/-- The shortest decimal that rounds to the magnitude at a positive rank.  With `n` digits
before the point the upper end lies below `10 ^ n`, and below `10 ^ -323` every step of a grid
is smaller than an interval, so the exponents from `n - 1` down to `-324` are all that count. -/
def shortest (rank : Nat) : Decimal :=
  let interval := Interval.ofRank rank
  interval.search (324 + interval.wholeDigits)

end Decimal

end SmallImp
