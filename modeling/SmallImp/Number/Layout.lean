/-
# How numbers are written

A layout is the list of decisions that turn digits into text.  There are two: the
one in which programs print numbers, and the one in which maps of values are
described.

| | printed | described |
| --- | --- | --- |
| positional from | `10 ^ -6` | `10 ^ -4` |
| positional below | `10 ^ 21` | `10 ^ 16` |
| integers | `5` | `5.0` |
| exponent | `1e-7` | `1e-07` |
| negative zero | `0` | `-0.0` |
-/
import SmallImp.Number.Shortest

namespace SmallImp

/-- The decisions of a number format. -/
structure Layout where
  /-- The least decimal exponent of a leading digit that is written positionally. -/
  positionalFrom : Int
  /-- The least greater exponent that is not. -/
  positionalBelow : Int
  /-- Whether a whole number written positionally ends in `.0`. -/
  wholePoint : Bool
  /-- The least number of digits of an exponent. -/
  exponentWidth : Nat
  /-- Whether a negative zero keeps its sign. -/
  signedZero : Bool
  nanText : String
  infinityText : String

namespace Layout

/-- The layout of printed numbers. -/
def printed : Layout := ⟨-6, 21, false, 1, false, "NaN", "Infinity"⟩

/-- The layout of numbers inside a described map. -/
def described : Layout := ⟨-4, 16, true, 2, true, "nan", "inf"⟩

/-- The digits of a natural number with zeros in front up to a width. -/
def padded (width n : Nat) : List Char :=
  List.replicate (width - (Decimal.digits n).length) '0' ++ Decimal.digits n

/-- The digits of a whole number that stands alone. -/
def whole (layout : Layout) (digits : List Char) : List Char :=
  digits ++ if layout.wholePoint then ['.', '0'] else []

/-- The digits with the point `point` places after their start. -/
def positional (layout : Layout) (digits : List Char) (point : Int) : List Char :=
  if point ≤ 0 then ['0', '.'] ++ List.replicate (-point).toNat '0' ++ digits
  else if point < digits.length then
    digits.take point.toNat ++ ['.'] ++ digits.drop point.toNat
  else layout.whole (digits ++ List.replicate (point.toNat - digits.length) '0')

/-- One digit, the rest after a point, and the decimal exponent of the first. -/
def scientific (layout : Layout) (digits : List Char) (exponent : Int) : List Char :=
  digits.take 1 ++ (if digits.length ≤ 1 then [] else '.' :: digits.drop 1) ++
    ['e', if exponent < 0 then '-' else '+'] ++ padded layout.exponentWidth exponent.natAbs

/-- A positive decimal. -/
def decimal (layout : Layout) (value : Decimal) : List Char :=
  let digits := Decimal.digits value.coefficient
  let point := value.exponent + digits.length
  if layout.positionalFrom < point ∧ point ≤ layout.positionalBelow then
    layout.positional digits point
  else layout.scientific digits (point - 1)

/-- A finite magnitude, given by its rank. -/
def magnitude (layout : Layout) (rank : Nat) : List Char :=
  if rank = 0 then layout.whole ['0'] else layout.decimal (Decimal.shortest rank)

/-- The text of a number. -/
def number (layout : Layout) : Binary64 → List Char
  | .nan => layout.nanText.toList
  | .infinity negative => (if negative then ['-'] else []) ++ layout.infinityText.toList
  | .finite negative rank =>
    (if negative && (rank.val != 0 || layout.signedZero) then ['-'] else []) ++
      layout.magnitude rank

end Layout

end SmallImp
