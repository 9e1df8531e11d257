/-
# The shortest decimal of a number

A decimal lies in the interval of a magnitude just if it is rounded to it
(`Decimal.Interval.contains_iff_roundsTo`).  Of the multiples of a power of ten the search looks at
the two around the middle, and one of them is in the interval if any is
(`Decimal.Interval.isSome_nearest?`).  It does not go below `10 ^ -324`, of which every interval has
a multiple, and starts where the powers of ten are greater than what the interval has.

So the decimal that `Decimal.shortest` finds is rounded to the magnitude that it was found for
(`roundsTo_shortest`), and none with a greater exponent is (`exponent_le_shortest`).  Since rounding
is monotone, shortest decimals are in the order of their magnitudes (`shortest_lt_iff`).
-/
import SmallImp.Number.Shortest
import SmallImp.Proofs.Number.Rounding

namespace SmallImp

open Binary64

namespace Decimal

/-- The rational that a decimal stands for. -/
def value (decimal : Decimal) : ℚ := decimal.coefficient * 10 ^ decimal.exponent

theorem value_nonneg (decimal : Decimal) : 0 ≤ decimal.value := by
  unfold value
  positivity

/-! ## Decimals in an interval -/

/-- The two parts of a power of ten. -/
theorem powerOfTen_value (exponent : ℤ) :
    ((powerOfTen exponent).1 : ℚ) / (powerOfTen exponent).2 = 10 ^ exponent := by
  simp only [powerOfTen, Nat.pow_eq, Nat.cast_pow, Nat.cast_ofNat]
  rw [← zpow_natCast, ← zpow_natCast, ← zpow_sub₀ (by norm_num)]
  congr 1
  omega

theorem powerOfTen_pos (exponent : ℤ) : 0 < (powerOfTen exponent).2 :=
  Nat.pow_pos (by norm_num)

/-- **A decimal lies in the interval of a magnitude just if it is rounded to it.** -/
theorem Interval.contains_iff {rank coefficient : ℕ} {exponent : ℤ} :
    (Interval.ofRank rank).contains coefficient exponent = true ↔
      nearestRank (coefficient * (powerOfTen exponent).1 * unitsPerOne)
        (powerOfTen exponent).2 = rank := by
  have positive := powerOfTen_pos exponent
  rw [Interval.contains, Interval.ofRank]
  generalize powerOfTen exponent = power at positive ⊢
  obtain ⟨up, down⟩ := power
  have point : coefficient * up * (2 * unitsPerOne) = 2 * (coefficient * up * unitsPerOne) := by
    ring
  dsimp only at positive ⊢
  rw [point]
  generalize coefficient * up * unitsPerOne = n
  have here := le_nearestRank_iff_units (n := n) positive rank
  have next := le_nearestRank_iff_units (n := n) positive (rank + 1)
  rw [Nat.add_sub_cancel] at next
  generalize (units (rank - 1) + units rank) * down = low at *
  generalize (units rank + units (rank + 1)) * down = high at *
  rcases Nat.mod_two_eq_zero_or_one rank with even | odd
  · rw [if_pos even] at here
    rw [if_neg (by omega)] at next
    simp [even]
    omega
  · rw [if_neg (by omega)] at here
    rw [if_pos (by omega)] at next
    simp [odd]
    omega

/-- The decimals in the interval of a finite magnitude are those that are rounded to it. -/
theorem Interval.contains_iff_roundsTo {rank : Fin rankCount} {decimal : Decimal} :
    (Interval.ofRank rank).contains decimal.coefficient decimal.exponent = true ↔
      RoundsTo decimal.value (.finite false rank) := by
  have rounds := roundsTo_ofRatio
    (n := decimal.coefficient * (powerOfTen decimal.exponent).1 * unitsPerOne)
    (powerOfTen_pos decimal.exponent)
  have unit : (2 : ℚ) ^ 1074 ≠ 0 := by positivity
  rw [Nat.cast_mul, unitsPerOne_cast, mul_div_mul_right _ _ unit, Nat.cast_mul,
    mul_div_assoc, powerOfTen_value] at rounds
  rw [contains_iff, ← ofRatio_eq_finite_iff false]
  exact ⟨fun number => number ▸ rounds, rounds.unique decimal.value_nonneg⟩

/-! ## The multiples of a power of ten -/

section
variable {interval : Interval} {exponent : ℤ} {coefficient : ℕ}

theorem Interval.contains_of_nearest? (h : interval.nearest? exponent = some coefficient) :
    interval.contains coefficient exponent = true := by
  unfold nearest? at h
  dsimp only at h
  split_ifs at h with first second <;> cases h <;> assumption

/-- What lies between a decimal of an interval and the middle is in the interval. -/
theorem Interval.contains_of_between (low : interval.low < interval.middle)
    (high : interval.middle < interval.high)
    (h : interval.contains coefficient exponent = true) (other : ℕ)
    (between : coefficient ≤ other ∧ other * ((powerOfTen exponent).1 * (2 * unitsPerOne)) ≤
        interval.middle * (powerOfTen exponent).2 ∨
      other ≤ coefficient ∧ interval.middle * (powerOfTen exponent).2 ≤
        other * ((powerOfTen exponent).1 * (2 * unitsPerOne))) :
    interval.contains other exponent = true := by
  have positive := powerOfTen_pos exponent
  unfold contains at h ⊢
  generalize powerOfTen exponent = power at *
  obtain ⟨up, down⟩ := power
  dsimp only at *
  rw [mul_assoc] at h ⊢
  have low := Nat.mul_lt_mul_of_pos_right low positive
  have high := Nat.mul_lt_mul_of_pos_right high positive
  have step (h : coefficient ≤ other) := Nat.mul_le_mul_right (up * (2 * unitsPerOne)) h
  have step' (h : other ≤ coefficient) := Nat.mul_le_mul_right (up * (2 * unitsPerOne)) h
  split_ifs at h ⊢
  · simp only [Bool.and_eq_true, decide_eq_true_eq] at h ⊢
    omega
  · simp only [Bool.and_eq_true, decide_eq_true_eq] at h ⊢
    omega

/-- **If an interval has a multiple of a power of ten, the search finds one**: one of the two around
the middle is in the interval. -/
theorem Interval.isSome_nearest? (low : interval.low < interval.middle)
    (high : interval.middle < interval.high)
    (h : interval.contains coefficient exponent = true) :
    (interval.nearest? exponent).isSome = true := by
  have positive : 0 < (powerOfTen exponent).1 * (2 * unitsPerOne) :=
    Nat.mul_pos (Nat.pow_pos (by norm_num)) (Nat.mul_pos two_pos unitsPerOne_pos)
  have between := contains_of_between low high h
  unfold nearest?
  dsimp only
  generalize (powerOfTen exponent).1 * (2 * unitsPerOne) = step at *
  generalize interval.middle * (powerOfTen exponent).2 = target at *
  have around : interval.contains (target / step) exponent = true ∨
      interval.contains (target / step + 1) exponent = true := by
    rcases Nat.lt_or_ge (target / step) coefficient with beyond | within
    · exact .inr (between _ (.inr ⟨beyond,
        (Nat.lt_mul_of_div_lt (Nat.lt_add_one _) positive).le⟩))
    · exact .inl (between _ (.inl ⟨within, Nat.div_mul_le_self ..⟩))
  split_ifs with above first second first second
  · rfl
  · rfl
  · exact (around.elim second first).elim
  · rfl
  · rfl
  · exact (around.elim first second).elim

/-- A search that finds something ends in the interval, at the greatest exponent where something
is found. -/
theorem Interval.contains_search {count k : ℕ} (within : k < count)
    (some : (interval.nearest? (k - 324)).isSome = true) :
    interval.contains (interval.search count).coefficient (interval.search count).exponent = true ∧
      k - 324 ≤ (interval.search count).exponent := by
  induction count with
  | zero => omega
  | succ count ih =>
    rw [search]
    cases found : interval.nearest? (count - 324) with
    | some coefficient =>
      refine ⟨contains_of_nearest? found, ?_⟩
      show (k : ℤ) - 324 ≤ count - 324
      omega
    | none =>
      have other : k ≠ count := by
        rintro rfl
        rw [found] at some
        cases some
      exact ih (by omega)

end

/-! ## The shortest decimal -/

/-- A magnitude lies inside its interval. -/
theorem Interval.middle_ofRank {rank : ℕ} (positive : 0 < rank) :
    (ofRank rank).low < (ofRank rank).middle ∧ (ofRank rank).middle < (ofRank rank).high := by
  have below := units_lt_units (show rank - 1 < rank by omega)
  have above := units_lt_units (Nat.lt_add_one rank)
  dsimp only [ofRank]
  omega

/-- **Every interval has a multiple of `10 ^ -324`**, the last one up to its middle. -/
theorem Interval.exists_contains_least {rank : ℕ} (positive : 0 < rank) :
    ∃ coefficient, (ofRank rank).contains coefficient (-324) = true := by
  obtain ⟨low, high⟩ := middle_ofRank positive
  have whole : (powerOfTen (-324)).1 = 1 := by decide +kernel
  have narrow : 2 * unitsPerOne < (powerOfTen (-324)).2 := by decide +kernel
  have step : 0 < 2 * unitsPerOne := Nat.mul_pos two_pos unitsPerOne_pos
  unfold contains
  generalize powerOfTen (-324) = power at *
  obtain ⟨up, down⟩ := power
  obtain rfl : up = 1 := whole
  dsimp only at narrow ⊢
  generalize ofRank rank = interval at *
  -- a step is shorter than the lower half of the interval
  have low : interval.low * down + down ≤ interval.middle * down := by
    rw [← Nat.succ_mul]
    exact Nat.mul_le_mul_right down low
  have high := Nat.mul_lt_mul_of_pos_right high (show 0 < down by omega)
  have quotient := Nat.div_add_mod (interval.middle * down) (2 * unitsPerOne)
  have rest := Nat.mod_lt (interval.middle * down) step
  refine ⟨interval.middle * down / (2 * unitsPerOne), ?_⟩
  rw [mul_one, mul_comm (_ / _)]
  generalize 2 * unitsPerOne * (interval.middle * down / (2 * unitsPerOne)) = point at *
  have inside : interval.low * down < point ∧ point < interval.high * down := by omega
  simp [inside.1, inside.2, inside.1.le, inside.2.le]

/-- The exponents of the decimals in an interval lie below the number of digits of its upper end. -/
theorem Interval.exponent_lt_wholeDigits {interval : Interval} {coefficient : ℕ} {exponent : ℤ}
    (positive : 0 < coefficient) (h : interval.contains coefficient exponent = true) :
    exponent < interval.wholeDigits := by
  by_contra beyond
  obtain ⟨places, rfl⟩ := Int.eq_ofNat_of_zero_le (show 0 ≤ exponent by omega)
  have digits : 0 < interval.wholeDigits := Nat.length_toDigits_pos
  have power : powerOfTen places = (10 ^ places, 1) := by simp [powerOfTen]
  have step : 0 < 2 * unitsPerOne := Nat.mul_pos two_pos unitsPerOne_pos
  have whole : interval.high / (2 * unitsPerOne) < 10 ^ interval.wholeDigits :=
    (Nat.length_toDigits_le_iff (by norm_num) digits).1 le_rfl
  rw [Nat.div_lt_iff_lt_mul step] at whole
  have inside : coefficient * 10 ^ places * (2 * unitsPerOne) ≤ interval.high := by
    unfold contains at h
    rw [power] at h
    dsimp only at h
    split_ifs at h
    · simp only [mul_one, Bool.and_eq_true, decide_eq_true_eq] at h
      exact h.2
    · simp only [mul_one, Bool.and_eq_true, decide_eq_true_eq] at h
      exact h.2.le
  have large : 10 ^ interval.wholeDigits ≤ coefficient * 10 ^ places :=
    calc 10 ^ interval.wholeDigits ≤ 10 ^ places := Nat.pow_le_pow_right (by norm_num) (by omega)
      _ ≤ coefficient * 10 ^ places := Nat.le_mul_of_pos_left _ positive
  have := Nat.mul_le_mul_right (2 * unitsPerOne) large
  omega

section
variable {rank other : Fin rankCount}

/-- The search comes to all exponents down to `-324`. -/
theorem search_shortest (positive : 0 < rank.val) {coefficient k : ℕ}
    (within : k < 324 + (Interval.ofRank rank).wholeDigits)
    (h : (Interval.ofRank rank).contains coefficient (k - 324) = true) :
    (Interval.ofRank rank).contains (shortest rank).coefficient (shortest rank).exponent = true ∧
      k - 324 ≤ (shortest rank).exponent := by
  obtain ⟨low, high⟩ := Interval.middle_ofRank positive
  exact Interval.contains_search within (Interval.isSome_nearest? low high h)

theorem contains_shortest (positive : 0 < rank.val) :
    (Interval.ofRank rank).contains (shortest rank).coefficient (shortest rank).exponent = true ∧
      -324 ≤ (shortest rank).exponent := by
  obtain ⟨coefficient, least⟩ := Interval.exists_contains_least positive
  exact search_shortest (k := 0) positive (by omega) least

/-- **The shortest decimal is rounded to the magnitude that it was found for.** -/
theorem roundsTo_shortest (positive : 0 < rank.val) :
    RoundsTo (shortest rank).value (.finite false rank) :=
  Interval.contains_iff_roundsTo.1 (contains_shortest positive).1

/-- Zero is rounded to zero, so no zero lies in the interval of another number. -/
theorem coefficient_pos {decimal : Decimal} (positive : 0 < rank.val)
    (h : RoundsTo decimal.value (.finite false rank)) : 0 < decimal.coefficient := by
  have here := Interval.contains_iff.1 (Interval.contains_iff_roundsTo.2 h)
  refine Nat.pos_of_ne_zero fun zero => positive.ne ?_
  rw [← here, zero]
  simp [nearestRank]

/-- **No decimal with a greater exponent is rounded to the magnitude.** -/
theorem exponent_le_shortest {decimal : Decimal} (positive : 0 < rank.val)
    (h : RoundsTo decimal.value (.finite false rank)) :
    decimal.exponent ≤ (shortest rank).exponent := by
  have inside := Interval.contains_iff_roundsTo.2 h
  have bounded := Interval.exponent_lt_wholeDigits (coefficient_pos positive h) inside
  by_cases small : decimal.exponent < -324
  · have := (contains_shortest positive).2
    omega
  · obtain ⟨k, eq⟩ := Int.eq_ofNat_of_zero_le (show 0 ≤ decimal.exponent + 324 by omega)
    have exponent : decimal.exponent = k - 324 := by omega
    rw [exponent] at inside ⊢
    exact (search_shortest positive (by omega) inside).2

/-- **Shortest decimals are in the order of their magnitudes.** -/
theorem shortest_lt_iff (hrank : 0 < rank.val) (hother : 0 < other.val) :
    (shortest rank).value < (shortest other).value ↔ rank.val < other.val := by
  have rounds := roundsTo_shortest hrank
  have rounds' := roundsTo_shortest hother
  constructor
  · intro lt
    have le := rounds.lessOrEqual rounds' (value_nonneg _) lt.le
    have ne : rank ≠ other := by
      rintro rfl
      exact lt.ne rfl
    simp only [lessOrEqual, order?, Bool.false_eq_true, if_false, decide_eq_true_eq] at le
    omega
  · intro lt
    by_contra le
    have ge := rounds'.lessOrEqual rounds (value_nonneg _) (not_lt.1 le)
    simp only [lessOrEqual, order?, Bool.false_eq_true, if_false, decide_eq_true_eq] at ge
    omega

end

end Decimal

end SmallImp
