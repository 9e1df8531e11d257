/-
# Remainders are exact

The remainder of two magnitudes is a multiple of the smaller one of their two steps and less than
`2 ^ 53` of them, so it is a magnitude itself (`exists_units_mod`).  Nothing is rounded, however
far the magnitudes lie apart and however great their quotient is.
-/
import SmallImp.Number.Arithmetic
import SmallImp.Proofs.Number.Rounding

namespace SmallImp
namespace Binary64

/-- The integer that is left of a rational without its fraction. -/
def truncated (q : ℚ) : ℤ := if 0 ≤ q then ⌊q⌋ else ⌈q⌉

theorem truncated_neg (q : ℚ) : truncated (-q) = -truncated q := by
  unfold truncated
  rcases lt_trichotomy q 0 with neg | rfl | pos
  · rw [if_pos (by linarith), if_neg (not_le.2 neg), Int.floor_neg]
  · simp
  · rw [if_neg (by linarith), if_pos pos.le, Int.ceil_neg]

/-- **The remainder of two magnitudes is a magnitude.** -/
theorem exists_units_mod (x : ℕ) {y : ℕ} (hy : 0 < y) :
    ∃ rank, units rank = units x % units y := by
  rw [units_eq_significand x, units_eq_significand y]
  have divisor : 0 < significand y := by
    have pos : 0 < units y := units_zero ▸ units_lt_units hy
    rw [units_eq_significand] at pos
    exact Nat.pos_of_mul_pos_right pos
  rcases Nat.le_total (binade y) (binade x) with le | le
  · -- the step of the divisor divides both magnitudes
    obtain ⟨more, eq⟩ := Nat.exists_eq_add_of_le' le
    rw [eq, pow_add, ← mul_assoc, Nat.mul_mod_mul_right]
    exact exists_units_eq _ ((Nat.mod_lt _ divisor).trans (significand_lt y))
  · -- the step of the dividend divides both magnitudes
    obtain ⟨more, eq⟩ := Nat.exists_eq_add_of_le' le
    rw [eq, pow_add, ← mul_assoc, Nat.mul_mod_mul_right]
    exact exists_units_eq _ ((Nat.mod_le _ _).trans_lt (significand_lt x))

/-- What is left of a magnitude after the greatest multiple of another one. -/
theorem magnitude_sub_floor (x y : ℕ) {rank : ℕ} (h : units rank = units x % units y) :
    magnitude x - ⌊magnitude x / magnitude y⌋ * magnitude y = magnitude rank := by
  have unit : (2 : ℚ) ^ 1074 ≠ 0 := by positivity
  have quotient : ⌊magnitude x / magnitude y⌋ = ((units x / units y : ℕ) : ℤ) := by
    rw [magnitude_eq, magnitude_eq, div_div_div_cancel_right₀ unit]
    exact Rat.floor_natCast_div_natCast ..
  have whole : (units x : ℚ) = units y * (units x / units y : ℕ) + units rank := by
    rw [h]
    exact_mod_cast (Nat.div_add_mod (units x) (units y)).symm
  rw [quotient, magnitude_eq, magnitude_eq, magnitude_eq, whole, Int.cast_natCast]
  generalize (2 : ℚ) ^ 1074 = unit
  ring

/-- The remainder of two finite numbers is that of their magnitudes with the sign of the first. -/
theorem remainder_finite (s t : Bool) (x y : Fin rankCount) (hy : 0 < y.val) :
    ∃ rank : Fin rankCount, units rank = units x % units y ∧
      remainder (.finite s x) (.finite t y) = .ok (.finite s rank) := by
  obtain ⟨rank, eq⟩ := exists_units_mod x hy
  have smaller : units rank < units y := by
    rw [eq]
    exact Nat.mod_lt _ (units_zero ▸ units_lt_units hy)
  have inRange : rank < rankCount := (units_strictMono.lt_iff_lt.1 smaller).trans y.isLt
  refine ⟨⟨rank, inRange⟩, eq, ?_⟩
  rw [remainder, if_neg hy.ne', ← eq]
  exact congrArg Except.ok (ofRatio_units s ⟨rank, inRange⟩)

/-- **A remainder is exact.**  It is the dividend less as many divisors as the quotient has without
its fraction, so it is smaller than the divisor; it has the sign of the dividend, as a zero too.
By an infinity a finite number is its own remainder. -/
theorem remainder_exact {a : Binary64} {va : ℚ} (ha : a.value? = some va) :
    (∀ b vb, b.value? = some vb → vb ≠ 0 →
      ∃ r v, a.remainder b = .ok r ∧ r.value? = some v ∧ va = truncated (va / vb) * vb + v ∧
        |v| < |vb| ∧ (v = 0 ∨ SignType.sign v = SignType.sign va) ∧
        r.isNegative = a.isNegative) ∧
      ∀ negative, a.remainder (.infinity negative) = .ok a := by
  cases a with
  | nan | infinity => cases ha
  | finite s x =>
    refine ⟨fun b vb hb nonzero => ?_, fun _ => rfl⟩
    cases b with
    | nan | infinity => cases hb
    | finite t y =>
      have divisor : 0 < y.val := by
        refine Nat.pos_of_ne_zero fun zero => nonzero ?_
        rw [← Option.some.inj hb, zero, magnitude_zero]
        simp
      obtain ⟨rank, eq, result⟩ := remainder_finite s t x y divisor
      have below : units rank < units y := by
        rw [eq]
        exact Nat.mod_lt _ (units_zero ▸ units_lt_units divisor)
      have within : rank.val ≤ x := by
        rw [← units_strictMono.le_iff_le, eq]
        exact Nat.mod_le ..
      obtain rfl := Option.some.inj ha
      obtain rfl := Option.some.inj hb
      refine ⟨.finite s rank, _, result, rfl, ?_, ?_, ?_, rfl⟩
      · have whole : truncated (magnitude x / magnitude y) = ⌊magnitude x / magnitude y⌋ :=
          if_pos (div_nonneg (magnitude_nonneg x) (magnitude_nonneg y))
        have left := magnitude_sub_floor x y eq
        cases s <;> cases t <;> simp [neg_div, div_neg, truncated_neg, whole] <;> linarith
      · have : magnitude rank < magnitude y :=
          magnitude_strictMono (units_strictMono.lt_iff_lt.1 below)
        rw [abs_signed, abs_signed]
        exact this
      · rcases (magnitude_nonneg rank).eq_or_lt with zero | pos
        · left
          simp [← zero]
        · right
          have dividend : 0 < magnitude x :=
            pos.trans_le (magnitude_strictMono.monotone within)
          cases s <;> simp [pos, dividend]

/-- The least finite number and the third one above zero: two thousand binary orders lie
between them, and the remainder is exact. -/
theorem remainder_exact_far :
    let a : Binary64 := .finite true ⟨rankCount - 1, Nat.sub_lt rankCount_pos one_pos⟩
    let b : Binary64 := .finite false ⟨3, by decide +kernel⟩
    a.value? = some (-magnitude (rankCount - 1)) ∧ b.value? = some (magnitude 3) ∧
      magnitude 3 ≠ 0 ∧ a.remainder b = .ok (.finite true ⟨2, by decide +kernel⟩) ∧
      -magnitude (rankCount - 1) =
        truncated (-magnitude (rankCount - 1) / magnitude 3) * magnitude 3 + -magnitude 2 := by
  intro a b
  have nonzero : magnitude 3 ≠ 0 :=
    (magnitude_zero ▸ magnitude_strictMono (show 0 < 3 by norm_num)).ne'
  have result : a.remainder b = .ok (.finite true ⟨2, by decide +kernel⟩) := by decide +kernel
  have dividend : a.value? = some (-magnitude (rankCount - 1)) := rfl
  obtain ⟨r, v, result', value, exact, -⟩ := (remainder_exact dividend).1 b _ rfl nonzero
  obtain rfl := Except.ok.inj (result.symm.trans result')
  obtain rfl := Option.some.inj value
  exact ⟨dividend, rfl, nonzero, result, exact⟩

end Binary64
end SmallImp
