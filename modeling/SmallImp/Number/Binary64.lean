/-
# Binary64 numbers

A finite binary64 magnitude is a whole number of *units* of `2 ^ -1074`.  The
magnitudes are listed in increasing order, and a number holds its place in that
list, its *rank*: rank `0` is zero, rank `1` the smallest subnormal, and the last
rank is the largest finite magnitude.  The rank is also the 63 low bits of the
standard encoding, so neighbours have neighbouring ranks and "even significand"
is "even rank".

| rank `r` | binade `b` | units |
| --- | --- | --- |
| `r < 2 ^ 53` | `0` | `r` |
| `(b + 1) 2 ^ 52 ≤ r < (b + 2) 2 ^ 52` | `b` | `(r - b 2 ^ 52) 2 ^ b` |

Every rounding goes through `nearestRank`, which takes an exact quotient of
natural numbers.
-/

namespace SmallImp

/-- The number of finite magnitudes: 2047 exponents with `2 ^ 52` significands each. -/
@[irreducible]
def rankCount : Nat := 2047 * Nat.pow 2 52

/-- A binary64 number.  All the not-a-number encodings are one value. -/
inductive Binary64 where
  | nan
  | infinity (negative : Bool)
  | finite (negative : Bool) (rank : Fin rankCount)
  deriving DecidableEq

namespace Binary64

/-- One, in units. -/
@[irreducible]
def unitsPerOne : Nat := Nat.pow 2 1074

/-- The binade of a rank: its units are multiples of `2 ^ binade r`. -/
def binade (rank : Nat) : Nat := rank / Nat.pow 2 52 - 1

/-- The magnitude at a rank, in units. -/
def units (rank : Nat) : Nat :=
  (rank - binade rank * Nat.pow 2 52) * Nat.pow 2 (binade rank)

/-- The rank nearest to `numerator / denominator` units, of two equally near ones
the even one.  It may be `rankCount` or more, which is past the finite range. -/
def nearestRank (numerator denominator : Nat) : Nat :=
  let scale := (numerator / denominator).log2 - 52
  let step := denominator * Nat.pow 2 scale
  let below := numerator / step
  let rest := numerator % step
  let up := step < 2 * rest ∨ (step = 2 * rest ∧ below % 2 = 1)
  scale * Nat.pow 2 52 + below + if up then 1 else 0

/-- The number nearest to `± numerator / denominator` units; out of range it is infinite. -/
def ofRatio (negative : Bool) (numerator denominator : Nat) : Binary64 :=
  let rank := nearestRank numerator denominator
  if inRange : rank < rankCount then .finite negative ⟨rank, inRange⟩ else .infinity negative

/-- The number nearest to `digits / 10 ^ places`. -/
def ofDecimal (digits places : Nat) : Binary64 :=
  ofRatio false (digits * unitsPerOne) (Nat.pow 10 places)

/-- The number nearest to an integer. -/
def ofInt (value : Int) : Binary64 :=
  ofRatio (value < 0) (value.natAbs * unitsPerOne) 1

/-- Zero is one of the finite magnitudes. -/
theorem rankCount_pos : 0 < rankCount := by unfold rankCount; decide

/-- The zero of either sign. -/
def zero (negative : Bool) : Binary64 := .finite negative ⟨0, rankCount_pos⟩

/-- The number one. -/
def one : Binary64 := ofInt 1

/-- The place of a number in the order of the reals and the infinities, both zeros
at `0`; a not-a-number has none. -/
def order? : Binary64 → Option Int
  | .nan => none
  | .infinity negative => some (if negative then -rankCount else rankCount)
  | .finite negative rank => some (if negative then -(rank.val : Int) else rank.val)

/-- The sign bit; a not-a-number counts as positive. -/
def isNegative : Binary64 → Bool
  | .nan => false
  | .infinity negative => negative
  | .finite negative _ => negative

/-- Either zero. -/
def isZero : Binary64 → Bool
  | .finite _ rank => rank.val == 0
  | _ => false

/-- The standard 64-bit encoding, the quiet not-a-number with no payload for `nan`. -/
def toBits : Binary64 → Nat
  | .nan => rankCount + Nat.pow 2 51
  | .infinity negative => rankCount + if negative then Nat.pow 2 63 else 0
  | .finite negative rank => rank.val + if negative then Nat.pow 2 63 else 0

/-- The number that a 64-bit encoding stands for. -/
def ofBits (bits : Nat) : Binary64 :=
  let negative := bits / Nat.pow 2 63 % 2 == 1
  let rank := bits % Nat.pow 2 63
  if inRange : rank < rankCount then .finite negative ⟨rank, inRange⟩
  else if rank = rankCount then .infinity negative
  else .nan

/-! ## Order and encoding -/

theorem binade_eq (rank : Nat) : binade rank = rank / 4503599627370496 - 1 := rfl

theorem units_eq (rank : Nat) :
    units rank = (rank - binade rank * 4503599627370496) * Nat.pow 2 (binade rank) := rfl

/-- The next magnitude is one step of the binade further. -/
theorem units_succ (rank : Nat) :
    units (rank + 1) = units rank + Nat.pow 2 (binade rank) := by
  rw [units_eq, units_eq]
  by_cases same : binade (rank + 1) = binade rank
  · rw [same]
    have : rank + 1 - binade rank * 4503599627370496 =
        (rank - binade rank * 4503599627370496) + 1 := by
      rw [binade_eq]; omega
    rw [this, Nat.add_mul, Nat.one_mul]
  · have up : binade (rank + 1) = binade rank + 1 := by
      rw [binade_eq (rank + 1), binade_eq rank] at same ⊢; omega
    have here : rank - binade rank * 4503599627370496 = 9007199254740991 := by
      rw [binade_eq (rank + 1), binade_eq rank] at same; rw [binade_eq]; omega
    have there : rank + 1 - binade (rank + 1) * 4503599627370496 = 4503599627370496 := by
      rw [binade_eq (rank + 1), binade_eq rank] at same; rw [binade_eq]; omega
    have twice : Nat.pow 2 (binade rank + 1) = Nat.pow 2 (binade rank) * 2 := rfl
    rw [there, here, up, twice]
    omega

/-- The magnitude at rank zero. -/
theorem units_zero : units 0 = 0 := by decide

/-- Magnitudes grow with their ranks. -/
theorem units_lt_units {a b : Nat} (h : a < b) : units a < units b := by
  induction h with
  | refl => rw [units_succ]; exact Nat.lt_add_of_pos_right (Nat.two_pow_pos _)
  | step _ ih => rw [units_succ]; exact Nat.lt_add_right _ ih

/-- The encoding of a not-a-number leaves the sign bit free. -/
theorem quiet_lt : rankCount + Nat.pow 2 51 < Nat.pow 2 63 := by unfold rankCount; decide

/-- Every rank leaves the sign bit free. -/
theorem rankCount_lt : rankCount < Nat.pow 2 63 := by unfold rankCount; decide

/-- A rank with a sign bit above it comes apart again. -/
theorem signed_parts {rank : Nat} (negative : Bool) (h : rank < Nat.pow 2 63) :
    (rank + if negative then Nat.pow 2 63 else 0) % Nat.pow 2 63 = rank ∧
      ((rank + if negative then Nat.pow 2 63 else 0) / Nat.pow 2 63 % 2 == 1) = negative := by
  cases negative
  · refine ⟨Nat.mod_eq_of_lt h, ?_⟩
    rw [if_neg Bool.false_ne_true, Nat.add_zero, Nat.div_eq_of_lt h]
    rfl
  · rw [if_pos rfl]
    refine ⟨by rw [Nat.add_mod_right, Nat.mod_eq_of_lt h], ?_⟩
    have sign : 0 < Nat.pow 2 63 := by decide
    rw [Nat.add_div_right _ sign, Nat.div_eq_of_lt h]
    rfl

/-- An encoding determines the number. -/
theorem ofBits_toBits (a : Binary64) : ofBits a.toBits = a := by
  cases a with
  | nan =>
    have rank : (rankCount + Nat.pow 2 51) % Nat.pow 2 63 = rankCount + Nat.pow 2 51 := Nat.mod_eq_of_lt quiet_lt
    unfold ofBits toBits
    rw [rank]
    rw [dif_neg (Nat.not_lt.mpr (Nat.le_add_right _ _)), if_neg]
    exact Nat.ne_of_gt (Nat.lt_add_of_pos_right (Nat.two_pow_pos _))
  | infinity negative =>
    have parts := signed_parts negative rankCount_lt
    unfold ofBits toBits
    rw [parts.1, parts.2, dif_neg (Nat.lt_irrefl _), if_pos rfl]
  | finite negative rank =>
    have parts := signed_parts negative (Nat.lt_trans rank.isLt rankCount_lt)
    unfold ofBits toBits
    simp only [parts.1, parts.2, rank.isLt, dite_true]

end Binary64

end SmallImp
