/-
# What a number stands for

A finite number is a sign, a significand below `2 ^ 53` and an exponent: the upper bits of its
rank are the exponent field of the encoding, the lower 52 bits the fraction field.

| exponent field `e` | significand | exponent |
| --- | --- | --- |
| `0` | fraction | `-1074` |
| `e` | `2 ^ 52 +` fraction | `e - 1075` |

`magnitude` is the product of the significand and the power of two, as a rational, and `value?` has
the sign too.  In units of `2 ^ -1074` it is a whole number, the one that the arithmetic works with
(`magnitude_eq`), and numbers compare as the rationals do that they stand for (`less_iff`).  A whole
number of units is a magnitude if it is a significand times a power of two (`exists_units_eq`).
-/
import Mathlib
import SmallImp.Number.Arithmetic

namespace SmallImp
namespace Binary64

theorem unitsPerOne_eq : unitsPerOne = 2 ^ 1074 := by decide +kernel

theorem unitsPerOne_pos : 0 < unitsPerOne := by
  rw [unitsPerOne_eq]
  positivity

theorem unitsPerOne_cast : (unitsPerOne : ℚ) = 2 ^ 1074 := by
  rw [unitsPerOne_eq, Nat.cast_pow, Nat.cast_ofNat]

theorem rankCount_eq : rankCount = 2047 * 2 ^ 52 := by
  unfold rankCount
  rw [Nat.pow_eq]

/-! ## Significand and exponent -/

/-- The significand at a rank: the fraction field, with the hidden bit unless the exponent field
is zero. -/
def significand (rank : ℕ) : ℕ := (if rank / 2 ^ 52 = 0 then 0 else 2 ^ 52) + rank % 2 ^ 52

/-- The exponent at a rank: the exponent field, with `0` standing for `1`, less the bias. -/
def exponent (rank : ℕ) : ℤ := (max 1 (rank / 2 ^ 52) : ℕ) - 1075

/-- The magnitude at a rank. -/
def magnitude (rank : ℕ) : ℚ := significand rank * 2 ^ exponent rank

/-- The rational that a finite number stands for; the others stand for none. -/
def value? : Binary64 → Option ℚ
  | .finite negative rank => some (if negative then -magnitude rank else magnitude rank)
  | _ => none

theorem significand_lt (rank : ℕ) : significand rank < 2 ^ 53 := by
  unfold significand
  split_ifs <;> omega

/-- The last bit of the significand is that of the rank. -/
theorem significand_mod_two (rank : ℕ) : significand rank % 2 = rank % 2 := by
  unfold significand
  split_ifs <;> omega

theorem units_eq_significand (rank : ℕ) : units rank = significand rank * 2 ^ binade rank := by
  have : rank - binade rank * 4503599627370496 = significand rank := by
    rw [binade_eq]
    unfold significand
    split_ifs <;> omega
  rw [units_eq, this, Nat.pow_eq]

/-- **A magnitude is a whole number of units.** -/
theorem magnitude_eq (rank : ℕ) : magnitude rank = units rank / 2 ^ 1074 := by
  have : exponent rank = (binade rank : ℤ) - (1074 : ℕ) := by
    rw [exponent, binade_eq]
    omega
  rw [magnitude, units_eq_significand, this, zpow_sub₀ two_ne_zero, zpow_natCast, zpow_natCast]
  push_cast
  exact (mul_div_assoc _ _ _).symm

theorem units_strictMono : StrictMono units := fun _ _ => units_lt_units

/-- Magnitudes grow with their ranks. -/
theorem magnitude_strictMono : StrictMono magnitude := by
  intro a b h
  rw [magnitude_eq, magnitude_eq]
  have : (units a : ℚ) < units b := by exact_mod_cast units_lt_units h
  gcongr

theorem magnitude_zero : magnitude 0 = 0 := by simp [magnitude_eq, units_zero]

theorem magnitude_nonneg (rank : ℕ) : 0 ≤ magnitude rank := by
  rw [magnitude_eq]
  positivity

/-- A sign does not change the size. -/
theorem abs_signed (negative : Bool) (rank : ℕ) :
    |if negative then -magnitude rank else magnitude rank| = magnitude rank := by
  cases negative <;> simp [abs_of_nonneg (magnitude_nonneg rank)]

/-! ## Order -/

/-- The rational at a place in the order. -/
def valueAt (place : ℤ) : ℚ :=
  if place < 0 then -magnitude place.natAbs else magnitude place.natAbs

theorem valueAt_strictMono : StrictMono valueAt := by
  intro a b h
  unfold valueAt
  split_ifs with ha hb hb
  · exact neg_lt_neg (magnitude_strictMono (by omega))
  · have : 0 < magnitude a.natAbs := magnitude_zero ▸ magnitude_strictMono (by omega)
    linarith [magnitude_nonneg b.natAbs]
  · omega
  · exact magnitude_strictMono (by omega)

section
variable {x y : Binary64} {p q : ℚ}

theorem order?_of_value? (h : x.value? = some q) :
    ∃ place, x.order? = some place ∧ q = valueAt place := by
  cases x with
  | nan | infinity => cases h
  | finite negative rank =>
    refine ⟨_, rfl, ?_⟩
    rw [← Option.some.inj h, valueAt]
    cases negative with
    | false => simp
    | true =>
      rcases Nat.eq_zero_or_pos rank with zero | positive
      · simp [zero, magnitude_zero]
      · simp [positive]

/-- **Numbers compare as the rationals do that they stand for.** -/
theorem less_iff (hx : x.value? = some p) (hy : y.value? = some q) :
    x.less y = true ↔ p < q := by
  obtain ⟨a, ha, rfl⟩ := order?_of_value? hx
  obtain ⟨b, hb, rfl⟩ := order?_of_value? hy
  simp [less, ha, hb, valueAt_strictMono.lt_iff_lt]

theorem equal_iff (hx : x.value? = some p) (hy : y.value? = some q) :
    x.equal y = true ↔ p = q := by
  obtain ⟨a, ha, rfl⟩ := order?_of_value? hx
  obtain ⟨b, hb, rfl⟩ := order?_of_value? hy
  simp [equal, ha, hb, valueAt_strictMono.injective.eq_iff]

end

/-! ## Ranks of whole numbers of units -/

/-- The rank of the greatest magnitude up to a whole number of units: the leading 53 bits, in the
binade where they are the significand. -/
def floorRank (n : ℕ) : ℕ := (n.log2 - 52) * 2 ^ 52 + n / 2 ^ (n.log2 - 52)

theorem leading_lt (n : ℕ) : n / 2 ^ (n.log2 - 52) < 2 ^ 53 := by
  rw [Nat.div_lt_iff_lt_mul (by positivity), ← pow_add]
  calc n < 2 ^ (n.log2 + 1) := Nat.lt_log2_self
    _ ≤ 2 ^ (53 + (n.log2 - 52)) := Nat.pow_le_pow_right (by norm_num) (by omega)

theorem le_leading {n : ℕ} (h : 0 < n.log2 - 52) : 2 ^ 52 ≤ n / 2 ^ (n.log2 - 52) := by
  have : n ≠ 0 := by
    rintro rfl
    simp at h
  rw [Nat.le_div_iff_mul_le (by positivity), ← pow_add, show 52 + (n.log2 - 52) = n.log2 by omega]
  exact Nat.log2_self_le this

theorem binade_floorRank (n : ℕ) : binade (floorRank n) = n.log2 - 52 := by
  have below := leading_lt n
  have above := @le_leading n
  rw [binade_eq, floorRank]
  generalize n / 2 ^ (n.log2 - 52) = leading at below above ⊢
  omega

theorem units_floorRank (n : ℕ) :
    units (floorRank n) = n / 2 ^ (n.log2 - 52) * 2 ^ (n.log2 - 52) := by
  have : floorRank n - (n.log2 - 52) * 4503599627370496 = n / 2 ^ (n.log2 - 52) :=
    Nat.add_sub_cancel_left ..
  rw [units_eq, binade_floorRank, this, Nat.pow_eq]

theorem units_floorRank_succ (n : ℕ) :
    units (floorRank n + 1) = (n / 2 ^ (n.log2 - 52) + 1) * 2 ^ (n.log2 - 52) := by
  rw [units_succ, units_floorRank, binade_floorRank, Nat.pow_eq]
  ring

/-- **A significand times a power of two is a magnitude.** -/
theorem exists_units_eq {m : ℕ} (k : ℕ) (h : m < 2 ^ 53) : ∃ rank, units rank = m * 2 ^ k := by
  refine ⟨floorRank (m * 2 ^ k), ?_⟩
  rw [units_floorRank]
  apply Nat.div_mul_cancel
  -- the leading 53 bits go at least as far down as the power of two
  have small : (m * 2 ^ k).log2 - 52 ≤ k := by
    by_cases zero : m = 0
    · simp [zero]
    · have : (m * 2 ^ k).log2 < 53 + k := by
        rw [Nat.log2_lt (by positivity), pow_add]
        gcongr
      omega
  exact (pow_dvd_pow 2 small).mul_left m

end Binary64
end SmallImp
