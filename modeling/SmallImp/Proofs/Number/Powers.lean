/-
# Powers of negative numbers

A negative number has no real power by an exponent that is not an integer, and `power` gives NaN,
unless the power of the magnitude is out of range: the result is then infinite, as the power of the
magnitude itself is (`power_of_negative`).

For many powers the binary exponents alone tell that they are out of range.  What
`clearlyOverflows` reads off the fields of two numbers is a bound on the rationals that they stand
for (`clearlyOverflows_iff`), and where it holds the real power is at least `2 ^ 1024`
(`BeyondRange.two_pow_le_rpow`).
-/
import SmallImp.Program
import SmallImp.Proofs.Number.Magnitudes
import SmallImp.Proofs.Semantics.Rules

namespace SmallImp
namespace Binary64

/-! ## Integers and binary exponents -/

theorem natCast_le_magnitude_iff (m rank : ℕ) :
    (m : ℚ) ≤ magnitude rank ↔ m ≤ units rank / unitsPerOne := by
  rw [magnitude_eq, le_div_iff₀ (by positivity), ← unitsPerOne_cast, ← Nat.cast_mul, Nat.cast_le,
    Nat.le_div_iff_mul_le unitsPerOne_pos]

theorem units_pos {rank : ℕ} (positive : 0 < rank) : 0 < units rank :=
  units_zero ▸ units_lt_units positive

/-- The binary exponent of a magnitude is that of the greatest power of two up to it. -/
theorem zpow_le_magnitude_iff {rank : ℕ} (positive : 0 < rank) (k : ℤ) :
    (2 : ℚ) ^ k ≤ magnitude rank ↔ k ≤ floorLog2 (units rank) := by
  have some : units rank ≠ 0 := (units_pos positive).ne'
  rw [magnitude_eq, floorLog2, le_div_iff₀ (by positivity), ← zpow_natCast,
    ← zpow_add₀ two_ne_zero]
  rcases Int.le_total 0 (k + (1074 : ℕ)) with nonneg | below
  · obtain ⟨e, eq⟩ := Int.eq_ofNat_of_zero_le nonneg
    rw [eq, zpow_natCast]
    have : (2 : ℚ) ^ e ≤ units rank ↔ 2 ^ e ≤ units rank := by exact_mod_cast Iff.rfl
    rw [this, ← Nat.le_log2 some]
    omega
  · refine iff_of_true ?_ (by omega)
    calc (2 : ℚ) ^ (k + (1074 : ℕ)) ≤ 1 := zpow_le_one_of_nonpos₀ one_le_two below
      _ ≤ units rank := by exact_mod_cast units_pos positive

/-- A magnitude is an integer if its units make whole ones. -/
theorem exists_magnitude_eq_iff (rank : ℕ) :
    (∃ z : ℤ, magnitude rank = z) ↔ unitsPerOne ∣ units rank := by
  have one : (unitsPerOne : ℚ) ≠ 0 := by exact_mod_cast unitsPerOne_pos.ne'
  rw [magnitude_eq, ← unitsPerOne_cast]
  constructor
  · rintro ⟨z, eq⟩
    rw [div_eq_iff one] at eq
    have whole : (units rank : ℤ) = z * unitsPerOne := by exact_mod_cast eq
    exact Int.natCast_dvd_natCast.1 ⟨z, whole.trans (mul_comm ..)⟩
  · rintro ⟨m, eq⟩
    refine ⟨m, ?_⟩
    rw [eq, Nat.cast_mul, mul_div_cancel_left₀ _ one, Int.cast_natCast]

/-- A number is an integer if it stands for one. -/
theorem isInteger_iff {a : Binary64} {q : ℚ} (h : a.value? = some q) :
    a.isInteger = true ↔ ∃ z : ℤ, q = z := by
  cases a with
  | nan | infinity => cases h
  | finite negative rank =>
    have signed : (∃ z : ℤ, q = z) ↔ ∃ z : ℤ, magnitude rank = z := by
      rw [← Option.some.inj h]
      cases negative with
      | false => rfl
      | true =>
        refine ⟨?_, ?_⟩ <;> rintro ⟨z, eq⟩ <;> refine ⟨-z, ?_⟩ <;> push_cast
        · exact neg_eq_iff_eq_neg.1 eq
        · exact congrArg (- ·) eq
    rw [signed, exists_magnitude_eq_iff, Nat.dvd_iff_mod_eq_zero]
    exact beq_iff_eq

/-! ## Overflow -/

/-- What shows a power to be out of range: powers of two up to which the base and the exponent
go, or the base from above and the exponent from below zero. -/
def BeyondRange (x y : ℚ) : Prop :=
  ∃ n m : ℕ, 1024 ≤ n * m ∧ (2 ^ n ≤ x ∧ m ≤ y ∨ x < (2 ^ n)⁻¹ ∧ y ≤ -m)

/-- A base and an exponent that are great enough have a power out of range. -/
theorem two_pow_le_rpow_of_le {x y : ℝ} {n m : ℕ} (enough : 1024 ≤ n * m) (base : 2 ^ n ≤ x)
    (exponent : m ≤ y) : (2 : ℝ) ^ 1024 ≤ x ^ y := by
  have one : (1 : ℝ) ≤ x := (one_le_pow₀ one_le_two).trans base
  calc (2 : ℝ) ^ 1024 ≤ 2 ^ (n * m) := pow_le_pow_right₀ one_le_two enough
    _ = (2 ^ n) ^ m := pow_mul ..
    _ ≤ x ^ m := pow_le_pow_left₀ (by positivity) base m
    _ = x ^ (m : ℝ) := (Real.rpow_natCast x m).symm
    _ ≤ x ^ y := Real.rpow_le_rpow_of_exponent_le one exponent

/-- **The real power is out of range.** -/
theorem BeyondRange.two_pow_le_rpow {x y : ℚ} (h : BeyondRange x y) (positive : 0 < x) :
    (2 : ℝ) ^ 1024 ≤ (x : ℝ) ^ (y : ℝ) := by
  obtain ⟨n, m, enough, ⟨base, exponent⟩ | ⟨base, exponent⟩⟩ := h
  · exact two_pow_le_rpow_of_le enough (by exact_mod_cast base) (by exact_mod_cast exponent)
  · -- the power is that of the inverse by the opposite exponent
    have inverse : (2 : ℝ) ^ n ≤ (x : ℝ)⁻¹ := by
      have : (2 : ℚ) ^ n ≤ x⁻¹ := (le_inv_comm₀ (by positivity) positive).2 base.le
      exact_mod_cast this
    have opposite : (m : ℝ) ≤ -(y : ℝ) := by
      have : (m : ℚ) ≤ -y := by linarith
      exact_mod_cast this
    have nonneg : (0 : ℝ) ≤ x := by exact_mod_cast positive.le
    have same : ((x : ℝ)⁻¹) ^ (-(y : ℝ)) = (x : ℝ) ^ (y : ℝ) := by
      rw [Real.inv_rpow nonneg, Real.rpow_neg nonneg, inv_inv]
    rw [← same]
    exact two_pow_le_rpow_of_le enough inverse opposite

/-- A product of an integer and a natural number is great enough if two natural numbers up to them
have such a product. -/
theorem le_mul_iff_exists {k : ℤ} {c most : ℕ} (positive : 0 < c) :
    (c : ℤ) ≤ k * most ↔ ∃ n m : ℕ, c ≤ n * m ∧ (n : ℤ) ≤ k ∧ m ≤ most := by
  constructor
  · intro enough
    have nonneg : 0 ≤ k := by
      by_contra below
      have : k * most ≤ 0 := mul_nonpos_of_nonpos_of_nonneg (by omega) (by positivity)
      omega
    obtain ⟨n, rfl⟩ := Int.eq_ofNat_of_zero_le nonneg
    exact ⟨n, most, by exact_mod_cast enough, le_rfl, le_rfl⟩
  · rintro ⟨n, m, enough, hn, hm⟩
    calc (c : ℤ) ≤ n * m := by exact_mod_cast enough
      _ ≤ k * most := mul_le_mul hn (by exact_mod_cast hm) (by positivity) (by omega)

/-- **Clear overflow is a bound on what the numbers stand for.** -/
theorem clearlyOverflows_iff {base exponent : Binary64} {x y : ℚ} (hx : base.value? = some x)
    (hy : exponent.value? = some y) (positive : 0 < x) :
    clearlyOverflows base exponent = true ↔ BeyondRange x y := by
  cases base with
  | nan | infinity => cases hx
  | finite s a =>
  cases exponent with
  | nan | infinity => cases hy
  | finite t b =>
  obtain rfl : x = magnitude a := by
    have := abs_signed s a
    rwa [Option.some.inj hx, abs_of_pos positive] at this
  have ha : 0 < a.val := Nat.pos_of_ne_zero fun zero => by
    rw [zero, magnitude_zero] at positive
    exact positive.false
  have some : (a.val != 0) = true := by simpa using ha.ne'
  have settles : (1024 : ℤ) = (1024 : ℕ) := rfl
  have hb := magnitude_nonneg b
  rw [clearlyOverflows, some, Bool.true_and]
  cases t with
  | false =>
    obtain rfl : y = magnitude b := (Option.some.inj hy).symm
    rw [if_neg Bool.false_ne_true, decide_eq_true_iff, settles, le_mul_iff_exists (by omega)]
    refine exists_congr fun n => exists_congr fun m => and_congr_right fun enough => ?_
    have hm : 0 < m := Nat.pos_of_ne_zero (by rintro rfl; omega)
    have never : ¬ magnitude b ≤ -(m : ℚ) := by
      have : (0 : ℚ) < m := by exact_mod_cast hm
      linarith
    rw [or_iff_left (fun h => never h.2), natCast_le_magnitude_iff, ← zpow_natCast,
      zpow_le_magnitude_iff ha]
  | true =>
    obtain rfl : y = -magnitude b := (Option.some.inj hy).symm
    rw [if_pos rfl, decide_eq_true_iff, settles, le_mul_iff_exists (by omega)]
    refine exists_congr fun n => exists_congr fun m => and_congr_right fun enough => ?_
    have hm : 0 < m := Nat.pos_of_ne_zero (by rintro rfl; omega)
    have never : ¬ (m : ℚ) ≤ -magnitude b := by
      have : (0 : ℚ) < m := by exact_mod_cast hm
      linarith
    rw [or_iff_right (fun h => never h.2), neg_le_neg_iff, natCast_le_magnitude_iff,
      ← zpow_natCast, ← zpow_neg, ← not_le, zpow_le_magnitude_iff ha]
    refine and_congr_left fun _ => ?_
    omega

/-! ## Powers -/

theorem value?_abs {a : Binary64} {q : ℚ} (h : a.value? = some q) : a.abs.value? = some |q| := by
  cases a with
  | nan | infinity => cases h
  | finite negative rank =>
    rw [← Option.some.inj h, abs_signed]
    rfl

/-- The power of a negative number by a fraction is infinite or NaN, as the power of its magnitude
has it. -/
theorem power_of_neg {base exponent : Binary64} {x y : ℚ} (hx : base.value? = some x)
    (hy : exponent.value? = some y) (negative : x < 0) (fraction : ∀ z : ℤ, y ≠ z) :
    power base exponent =
      if magnitudePower base.abs exponent = .infinity false then .infinity false else .nan := by
  have noInteger : exponent.isInteger = false := by
    rw [← Bool.not_eq_true, isInteger_iff hy]
    rintro ⟨z, eq⟩
    exact fraction z eq
  cases base with
  | nan | infinity => cases hx
  | finite s a =>
  cases exponent with
  | nan | infinity => cases hy
  | finite t b =>
  obtain rfl : s = true := by
    by_contra positive
    have : x = magnitude a := by simpa [value?, positive] using hx.symm
    linarith [magnitude_nonneg a]
  obtain ⟨_ | a, ha⟩ := a
  · have : x = 0 := by simpa [value?, magnitude_zero] using hx.symm
    exact absurd this negative.ne
  obtain ⟨_ | b, hb⟩ := b
  · have : y = (0 : ℤ) := by simpa [value?, magnitude_zero] using hy.symm
    exact absurd this (fraction 0)
  simp only [power, noInteger]
  rfl

end Binary64

open Binary64

/-- The operator `^` computes the power of two numbers. -/
theorem evaluate_power {env : Environment} {store : Store} {left right : Expr} {operator : Operator}
    {block : Block} {base exponent : Binary64} (symbol : operator.symbol = "^")
    (hleft : evaluate env store left = .ok (.number base))
    (hright : evaluate env store right = .ok (.number exponent)) :
    evaluate env store (.binary left operator right block) =
      .ok (.number (power base exponent)) := by
  have found : BinaryOperator.ofSymbol? operator.symbol = some .power := by
    rw [symbol]
    rfl
  have suits : Suits .power (.number base) (.number exponent) := ⟨rfl, rfl⟩
  rw [evaluate, hleft, hright]
  exact suits.applyBinary found left.block right.block

/-- **The power of a negative number by a fraction is NaN, unless its magnitude overflows**: then it
is infinite.  The magnitude does where the binary exponents tell, and there it is out of range as a
real number too.  So it is for the operator `^` wherever its operands have such values. -/
theorem power_of_negative {base exponent : Binary64} {x y : ℚ} (hx : base.value? = some x)
    (hy : exponent.value? = some y) (negative : x < 0) (fraction : ∀ z : ℤ, y ≠ z) :
    (power base exponent =
      if magnitudePower base.abs exponent = .infinity false then .infinity false else .nan) ∧
    (BeyondRange |x| y →
      power base exponent = .infinity false ∧ (2 : ℝ) ^ 1024 ≤ |(x : ℝ)| ^ (y : ℝ)) ∧
    ∀ env store left operator right block, operator.symbol = "^" →
      evaluate env store left = .ok (.number base) →
      evaluate env store right = .ok (.number exponent) →
      evaluate env store (.binary left operator right block) =
        .ok (.number (power base exponent)) := by
  have eq := power_of_neg hx hy negative fraction
  have positive : 0 < |x| := abs_pos.2 negative.ne
  refine ⟨eq, fun beyond => ⟨?_, ?_⟩, fun _ _ _ _ _ _ symbol => evaluate_power symbol⟩
  · have overflows := (clearlyOverflows_iff (value?_abs hx) hy positive).2 beyond
    rw [eq, if_pos]
    rw [magnitudePower, if_pos overflows]
  · have large := beyond.two_pow_le_rpow positive
    rwa [Rat.cast_abs] at large

/-! ## An example out of range -/

namespace Binary64

/-- The number `-2`. -/
def minusTwo : Binary64 := .finite true ⟨1024 * 2 ^ 52, by rw [rankCount_eq]; norm_num⟩

/-- The number `1024.5`. -/
def largeFraction : Binary64 :=
  .finite false ⟨1033 * 2 ^ 52 + 2 ^ 41, by rw [rankCount_eq]; norm_num⟩

theorem value?_minusTwo : minusTwo.value? = some (-2) := by
  norm_num [minusTwo, value?, magnitude, significand, exponent]

theorem value?_largeFraction : largeFraction.value? = some (2049 / 2) := by
  norm_num [largeFraction, value?, magnitude, significand, exponent]

theorem largeFraction_ne (z : ℤ) : (2049 / 2 : ℚ) ≠ z := by
  intro eq
  have twice : (2049 : ℤ) = 2 * z := by
    have : (2049 : ℚ) = 2 * z := by linarith
    exact_mod_cast this
  omega

end Binary64

/-- `-2 ^ 1024.5` is infinite: `2 ^ 1 ≤ 2` and `1024 ≤ 1024.5`. -/
theorem power_of_negative_two :
    let two : Expr := .value ⟨.number, "2", .origin⟩ .origin
    let left : Expr := .unary ⟨.unary, "-", .origin⟩ two .origin
    let right : Expr := .value ⟨.number, "1024.5", .origin⟩ .origin
    minusTwo.value? = some (-2) ∧ largeFraction.value? = some (2049 / 2) ∧
      (∀ z : ℤ, (2049 / 2 : ℚ) ≠ z) ∧ power minusTwo largeFraction = .infinity false ∧
      evaluate .empty .empty (.binary left ⟨.binary, "^", .origin⟩ right .origin) =
        .ok (.number (power minusTwo largeFraction)) := by
  intro two left right
  obtain ⟨-, large, evaluates⟩ := power_of_negative value?_minusTwo value?_largeFraction
    (by norm_num) largeFraction_ne
  have beyond : BeyondRange |(-2)| (2049 / 2) := ⟨1, 1024, by norm_num, .inl (by norm_num)⟩
  exact ⟨value?_minusTwo, value?_largeFraction, largeFraction_ne, (large beyond).1,
    evaluates .empty .empty left _ right .origin rfl (by decide +kernel) (by decide +kernel)⟩

/-- A negative number has a power by a fraction that is not NaN, and a program prints it. -/
theorem exists_power_ne_nan :
    (∃ base exponent x y, Binary64.value? base = some x ∧ Binary64.value? exponent = some y ∧
      x < 0 ∧ (∀ z : ℤ, y ≠ z) ∧ power base exponent ≠ .nan) ∧
    ∃ program attempt, parse "print -2 ^ 1024.5" = .ok program ∧ run 0 program = some attempt ∧
      attempt.progress.output = "Infinity\n" := by
  refine ⟨⟨minusTwo, largeFraction, -2, 2049 / 2, value?_minusTwo, value?_largeFraction,
    by norm_num, largeFraction_ne, by decide +kernel⟩, ?_⟩
  have printed : ((parse "print -2 ^ 1024.5").toOption.bind (run 0)).map (·.progress.output) =
      some "Infinity\n" := by decide +kernel
  rcases accepted : parse "print -2 ^ 1024.5" with error | program
  · rw [accepted] at printed
    cases printed
  · rw [accepted] at printed
    obtain ⟨attempt, ran, output⟩ := Option.map_eq_some_iff.1 printed
    exact ⟨program, attempt, rfl, ran, output⟩

end SmallImp
