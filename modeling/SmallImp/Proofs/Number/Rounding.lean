/-
# Rounding to nearest, ties to even

`RoundsTo` says what a rational is rounded to, without the way it is computed: to a finite number
that no finite number is nearer than, with an even significand where another one is as near, or to
infinity from half-way between the largest finite number and `2 ^ 1024` on.

The ranks that a rational is rounded to are those that it `Reaches`: it lies above the middle
between a magnitude and the one before it, or on the middle if the rank is even.  So rounding is
monotone, and `nearestRank`, which finds the two magnitudes around a quotient and compares it with
their middle, computes the greatest of these ranks (`le_nearestRank_iff`).  That this is the
nearest number is then a matter of distances (`Reaches.isNearest`), and `ofRatio` gives the number
that `RoundsTo` calls for (`roundsTo_ofRatio`).
-/
import SmallImp.Number.Arithmetic
import SmallImp.Proofs.Number.Magnitudes

namespace SmallImp
namespace Binary64

/-! ## What it is to be rounded -/

/-- Half-way between the largest finite magnitude and `2 ^ 1024`. -/
def overflowBound : ℚ := 2 ^ 1024 - 2 ^ 970

/-- Whether the magnitude at a rank is nearest to a rational among all finite numbers, and where
another value is as near, its significand is even. -/
structure IsNearest (q : ℚ) (rank : ℕ) : Prop where
  nearest : ∀ y v, value? y = some v → |magnitude rank - q| ≤ |v - q|
  even : ∀ y v, value? y = some v → v ≠ magnitude rank → |magnitude rank - q| = |v - q| →
    Even (significand rank)

/-- What a rational from zero on is rounded to. -/
inductive RoundsTo (q : ℚ) : Binary64 → Prop
  | finite {rank : Fin rankCount} : q < overflowBound → IsNearest q rank →
      RoundsTo q (.finite false rank)
  | infinity : overflowBound ≤ q → RoundsTo q (.infinity false)

/-- Whether a rational is rounded to a rank or a greater one. -/
def Reaches (q : ℚ) (rank : ℕ) : Prop :=
  if rank % 2 = 0 then magnitude (rank - 1) + magnitude rank ≤ 2 * q
  else magnitude (rank - 1) + magnitude rank < 2 * q

/-! ## What is computed -/

section
variable {n d : ℕ}

/-- `nearestRank` compares the quotient with the middle between the magnitude at its floor and the
next one, and the quotient lies between these two. -/
theorem nearestRank_eq (hd : 0 < d) : ∃ floor,
    units floor * d ≤ n ∧ n < units (floor + 1) * d ∧
      nearestRank n d = floor +
        if (units floor + units (floor + 1)) * d < 2 * n ∨
          (units floor + units (floor + 1)) * d = 2 * n ∧ floor % 2 = 1 then 1 else 0 := by
  refine ⟨floorRank (n / d), ?_⟩
  rw [units_floorRank, units_floorRank_succ, nearestRank, floorRank]
  simp only [Nat.pow_eq]
  generalize hs : (n / d).log2 - 52 = scale
  have step : 0 < d * 2 ^ scale := by positivity
  have whole := Nat.div_add_mod n (d * 2 ^ scale)
  have rest := Nat.mod_lt n step
  rw [Nat.div_div_eq_div_mul]
  generalize n / (d * 2 ^ scale) = below at whole ⊢
  generalize n % (d * 2 ^ scale) = excess at whole rest ⊢
  have lower : below * 2 ^ scale * d = d * 2 ^ scale * below := by ring
  have upper : (below + 1) * 2 ^ scale * d = d * 2 ^ scale * below + d * 2 ^ scale := by ring
  have middle : (below * 2 ^ scale + (below + 1) * 2 ^ scale) * d =
      2 * (d * 2 ^ scale * below) + d * 2 ^ scale := by ring
  rw [lower, upper, middle]
  generalize d * 2 ^ scale * below = floor at *
  generalize d * 2 ^ scale = step at *
  -- an even number of ranks lies below the binade
  have parity : (scale * 2 ^ 52 + below) % 2 = below % 2 := by omega
  refine ⟨by omega, by omega, ?_⟩
  rw [parity]
  congr 2
  apply propext
  constructor <;> omega

/-- The ranks up to the nearest one are those whose magnitude, with the one before, has its middle
below the quotient, or at it if the rank is even. -/
theorem le_nearestRank_iff_units (hd : 0 < d) (rank : ℕ) :
    rank ≤ nearestRank n d ↔
      if rank % 2 = 0 then (units (rank - 1) + units rank) * d ≤ 2 * n
      else (units (rank - 1) + units rank) * d < 2 * n := by
  obtain ⟨floor, lower, upper, eq⟩ := nearestRank_eq (n := n) hd
  rcases lt_trichotomy rank (floor + 1) with below | rfl | above
  · -- both magnitudes are at most that of the floor
    have reached : rank ≤ nearestRank n d := by omega
    have one : units (rank - 1) * d ≤ n :=
      (Nat.mul_le_mul_right d (units_strictMono.monotone (by omega))).trans lower
    have two : units rank * d ≤ n :=
      (Nat.mul_le_mul_right d (units_strictMono.monotone (by omega))).trans lower
    refine iff_of_true reached ?_
    rw [add_mul]
    split_ifs with even
    · omega
    · have : units (rank - 1) * d < units rank * d :=
        Nat.mul_lt_mul_of_pos_right (units_lt_units (by omega)) hd
      omega
  · rw [eq, Nat.add_sub_cancel]
    split_ifs <;> omega
  · -- both magnitudes are at least the one after the floor, and one is greater
    have missed : ¬ rank ≤ nearestRank n d := by
      rw [eq]
      split_ifs <;> omega
    have one : units (floor + 1) * d ≤ units (rank - 1) * d :=
      Nat.mul_le_mul_right d (units_strictMono.monotone (by omega))
    have two : units (floor + 1) * d ≤ units rank * d :=
      Nat.mul_le_mul_right d (units_strictMono.monotone (by omega))
    refine iff_of_false missed ?_
    rw [add_mul]
    split_ifs <;> omega

/-- Comparisons with a quotient, in units of any size. -/
theorem div_le_two_mul_div_iff (hd : 0 < d) (m : ℕ) {unit : ℚ} (hunit : 0 < unit) :
    ((m : ℚ) / unit ≤ 2 * (n / (d * unit)) ↔ m * d ≤ 2 * n) ∧
      ((m : ℚ) / unit < 2 * (n / (d * unit)) ↔ m * d < 2 * n) := by
  have bound : (0 : ℚ) < d * unit := by positivity
  have left : (m : ℚ) / unit = (m * d : ℕ) / (d * unit) := by
    push_cast
    field_simp
  have right : 2 * ((n : ℚ) / (d * unit)) = (2 * n : ℕ) / (d * unit) := by
    push_cast
    ring
  rw [left, right, div_le_div_iff_of_pos_right bound, div_lt_div_iff_of_pos_right bound]
  exact ⟨Nat.cast_le, Nat.cast_lt⟩

/-- **A quotient is rounded to the greatest rank that it reaches.** -/
theorem le_nearestRank_iff (hd : 0 < d) (rank : ℕ) :
    rank ≤ nearestRank n d ↔ Reaches (n / (d * 2 ^ 1074)) rank := by
  have compare (m : ℕ) :=
    div_le_two_mul_div_iff (n := n) hd m (pow_pos two_pos 1074 : (0 : ℚ) < 2 ^ 1074)
  rw [le_nearestRank_iff_units hd, Reaches, magnitude_eq, magnitude_eq, ← add_div, ← Nat.cast_add,
    (compare _).1, (compare _).2]

end

/-! ## Distances -/

/-- Of two numbers the smaller one is as near as the greater one up to their middle. -/
theorem abs_sub_le_iff_left {a b q : ℚ} (h : a < b) : |a - q| ≤ |b - q| ↔ 2 * q ≤ a + b := by
  rw [← sq_le_sq]
  constructor <;> intro h' <;> nlinarith

/-- Of two numbers the greater one is as near as the smaller one from their middle on. -/
theorem abs_sub_le_iff_right {a b q : ℚ} (h : a < b) : |b - q| ≤ |a - q| ↔ a + b ≤ 2 * q := by
  rw [← sq_le_sq]
  constructor <;> intro h' <;> nlinarith

/-- The magnitude of the largest finite number and `2 ^ 1024`, the magnitude that the next rank
would have, have the bound of overflow in their middle. -/
theorem magnitude_last : magnitude (rankCount - 1) + magnitude rankCount = 2 * overflowBound := by
  have last : significand (rankCount - 1) = 2 ^ 53 - 1 ∧
      exponent (rankCount - 1) = (1 + 970 : ℕ) := by
    rw [rankCount_eq]
    decide
  have next : significand rankCount = 2 ^ 52 ∧ exponent rankCount = (2 + 970 : ℕ) := by
    rw [rankCount_eq]
    decide
  have bound : (2 : ℚ) ^ 1024 = 2 ^ 54 * 2 ^ 970 := pow_add 2 54 970
  rw [magnitude, magnitude, last.1, last.2, next.1, next.2, zpow_natCast, zpow_natCast, pow_add,
    pow_add, overflowBound, bound]
  generalize (2 : ℚ) ^ 970 = unit
  norm_num
  ring

section
variable {q : ℚ} {rank other : ℕ}

theorem Reaches.middle_le (h : Reaches q rank) :
    magnitude (rank - 1) + magnitude rank ≤ 2 * q := by
  unfold Reaches at h
  split_ifs at h
  · exact h
  · exact h.le

theorem le_middle_of_not_reaches (h : ¬ Reaches q (rank + 1)) :
    2 * q ≤ magnitude rank + magnitude (rank + 1) := by
  unfold Reaches at h
  split_ifs at h
  · exact (not_le.1 h).le
  · exact not_lt.1 h

/-- What reaches a rank reaches those before it, and so do all greater rationals. -/
theorem Reaches.mono {q' : ℚ} (h : Reaches q rank) (le : q ≤ q') (before : other ≤ rank) :
    Reaches q' other := by
  rcases before.eq_or_lt with rfl | lt
  · unfold Reaches at *
    split_ifs at * <;> linarith
  · have middle := h.middle_le
    have one : magnitude (other - 1) ≤ magnitude (rank - 1) :=
      magnitude_strictMono.monotone (by omega)
    have two : magnitude other < magnitude rank := magnitude_strictMono lt
    unfold Reaches
    split_ifs <;> linarith

/-- A rank that is reached is nearer than those before it, or as near and even. -/
theorem Reaches.nearer (h : Reaches q rank) (before : other < rank) :
    |magnitude rank - q| ≤ |magnitude other - q| ∧
      (|magnitude rank - q| = |magnitude other - q| → rank % 2 = 0) := by
  have smaller : magnitude other < magnitude rank := magnitude_strictMono before
  have adjacent : magnitude other ≤ magnitude (rank - 1) :=
    magnitude_strictMono.monotone (by omega)
  have middle := h.middle_le
  refine ⟨(abs_sub_le_iff_right smaller).2 (by linarith), fun tie => ?_⟩
  have : 2 * q ≤ magnitude other + magnitude rank := (abs_sub_le_iff_left smaller).1 tie.ge
  by_contra odd
  have : magnitude (rank - 1) + magnitude rank < 2 * q := by rwa [Reaches, if_neg odd] at h
  linarith

/-- A rank beyond which nothing is reached is nearer than those after it, or as near and even. -/
theorem nearer_of_not_reaches (h : ¬ Reaches q (rank + 1)) (after : rank < other) :
    |magnitude rank - q| ≤ |magnitude other - q| ∧
      (|magnitude rank - q| = |magnitude other - q| → rank % 2 = 0) := by
  have greater : magnitude rank < magnitude other := magnitude_strictMono after
  have adjacent : magnitude (rank + 1) ≤ magnitude other := magnitude_strictMono.monotone after
  have middle := le_middle_of_not_reaches h
  refine ⟨(abs_sub_le_iff_left greater).2 (by linarith), fun tie => ?_⟩
  have : magnitude rank + magnitude other ≤ 2 * q := (abs_sub_le_iff_right greater).1 tie.ge
  by_contra odd
  have : ¬ magnitude rank + magnitude (rank + 1) ≤ 2 * q := by
    rwa [Reaches, if_pos (by omega)] at h
  linarith

/-- A finite number lies below zero or is a magnitude. -/
theorem neg_or_eq_magnitude {y : Binary64} {v : ℚ} (h : value? y = some v) :
    v < 0 ∨ ∃ rank, v = magnitude rank := by
  cases y with
  | nan | infinity => cases h
  | finite negative rank =>
    cases negative with
    | false => exact .inr ⟨rank, (Option.some.inj h).symm⟩
    | true =>
      have eq : -magnitude rank = v := Option.some.inj h
      rcases (magnitude_nonneg rank).eq_or_lt with zero | pos
      · exact .inr ⟨0, by rw [← eq, ← zero, magnitude_zero, neg_zero]⟩
      · exact .inl (by linarith)

/-- A nearest number is reached, and if the next one were it would be as near. -/
theorem IsNearest.reaches (h : IsNearest q rank) (hq : 0 ≤ q) (inRange : q < overflowBound)
    (hrank : rank < rankCount) : Reaches q rank ∧ ¬ Reaches q (rank + 1) := by
  have near (other : ℕ) (hother : other < rankCount) :
      |magnitude rank - q| ≤ |magnitude other - q| :=
    h.nearest (.finite false ⟨other, hother⟩) _ rfl
  have even (other : ℕ) (hother : other < rankCount) (ne : other ≠ rank)
      (tie : |magnitude rank - q| = |magnitude other - q|) : rank % 2 = 0 := by
    rw [← significand_mod_two, ← Nat.even_iff]
    exact h.even (.finite false ⟨other, hother⟩) _ rfl (magnitude_strictMono.injective.ne ne) tie
  constructor
  · unfold Reaches
    rcases Nat.eq_zero_or_pos rank with rfl | pos
    · simpa [magnitude_zero] using hq
    · have smaller : magnitude (rank - 1) < magnitude rank := magnitude_strictMono (by omega)
      have middle := (abs_sub_le_iff_right smaller).1 (near (rank - 1) (by omega))
      split_ifs with parity
      · exact middle
      · refine lt_of_le_of_ne middle fun eq => parity (even (rank - 1) (by omega) (by omega) ?_)
        exact le_antisymm (near _ (by omega)) ((abs_sub_le_iff_left smaller).2 eq.ge)
  · intro reached
    have middle := reached.middle_le
    rw [Nat.add_sub_cancel] at middle
    rcases Nat.lt_or_ge (rank + 1) rankCount with inside | last
    · have greater : magnitude rank < magnitude (rank + 1) := magnitude_strictMono (by omega)
      have middle' := (abs_sub_le_iff_left greater).1 (near (rank + 1) inside)
      have parity : rank % 2 = 0 := even (rank + 1) inside (by omega)
        (le_antisymm (near _ inside) ((abs_sub_le_iff_right greater).2 middle))
      rw [Reaches, if_neg (by omega), Nat.add_sub_cancel] at reached
      linarith
    · have bound := magnitude_last
      rw [show rankCount - 1 = rank by omega, show rankCount = rank + 1 by omega] at bound
      linarith

/-- A number that is reached, and beyond which none is, is nearest. -/
theorem Reaches.isNearest (h : Reaches q rank) (h' : ¬ Reaches q (rank + 1)) (hq : 0 ≤ q) :
    IsNearest q rank := by
  have near (other : ℕ) : |magnitude rank - q| ≤ |magnitude other - q| ∧
      (other ≠ rank → |magnitude rank - q| = |magnitude other - q| → rank % 2 = 0) := by
    rcases lt_trichotomy other rank with before | rfl | after
    · exact ⟨(h.nearer before).1, fun _ => (h.nearer before).2⟩
    · exact ⟨le_rfl, fun ne => absurd rfl ne⟩
    · have nearer := nearer_of_not_reaches h' after
      exact ⟨nearer.1, fun _ => nearer.2⟩
  have zero : |magnitude rank - q| ≤ q := by
    simpa [magnitude_zero, abs_of_nonneg hq] using (near 0).1
  -- a number below zero is farther than zero
  have negative {v : ℚ} (hv : v < 0) : |magnitude rank - q| < |v - q| := by
    rw [abs_of_neg (by linarith : v - q < 0)]
    linarith
  constructor
  · intro y v hv
    obtain below | ⟨other, rfl⟩ := neg_or_eq_magnitude hv
    · exact (negative below).le
    · exact (near other).1
  · intro y v hv ne tie
    rw [Nat.even_iff, significand_mod_two]
    obtain below | ⟨other, rfl⟩ := neg_or_eq_magnitude hv
    · exact absurd tie (negative below).ne
    · exact (near other).2 (fun same => ne (by rw [same])) tie

/-- What is rounded out of the range is what lies at its bound or beyond. -/
theorem reaches_rankCount_iff : Reaches q rankCount ↔ overflowBound ≤ q := by
  have even : rankCount % 2 = 0 := by
    rw [rankCount_eq]
    decide
  rw [Reaches, if_pos even, magnitude_last]
  exact mul_le_mul_iff_of_pos_left two_pos

/-- **A rational is rounded to the last rank that it reaches.** -/
theorem roundsTo_iff (hq : 0 ≤ q) {x : Binary64} :
    RoundsTo q x ↔
      (∃ rank : Fin rankCount, x = .finite false rank ∧ Reaches q rank ∧ ¬ Reaches q (rank + 1)) ∨
        x = .infinity false ∧ Reaches q rankCount := by
  rw [reaches_rankCount_iff]
  constructor
  · intro h
    cases h with
    | @finite rank inRange near =>
      exact .inl ⟨rank, rfl, near.reaches hq inRange rank.isLt⟩
    | infinity out => exact .inr ⟨rfl, out⟩
  · rintro (⟨rank, rfl, reached, missed⟩ | ⟨rfl, out⟩)
    · have inRange : q < overflowBound := by
        rw [← not_le, ← reaches_rankCount_iff]
        exact fun all => missed (all.mono le_rfl rank.isLt)
      exact .finite inRange (reached.isNearest missed hq)
    · exact .infinity out

/-- What a rational reaches is no further than what a greater one does not go beyond. -/
theorem Reaches.le_of_not_reaches {q' : ℚ} (h : Reaches q rank) (h' : ¬ Reaches q' (other + 1))
    (le : q ≤ q') : rank ≤ other := by
  by_contra beyond
  exact h' (h.mono le (by omega))

/-- **A greater rational is not rounded to a smaller number.** -/
theorem RoundsTo.lessOrEqual {q' : ℚ} {x x' : Binary64} (h : RoundsTo q x) (h' : RoundsTo q' x')
    (hq : 0 ≤ q) (le : q ≤ q') : x.lessOrEqual x' = true := by
  rw [roundsTo_iff hq] at h
  rw [roundsTo_iff (hq.trans le)] at h'
  obtain ⟨rank, rfl, reached, -⟩ | ⟨rfl, reached⟩ := h <;>
    obtain ⟨rank', rfl, -, missed⟩ | ⟨rfl, -⟩ := h'
  · simpa [Binary64.lessOrEqual, order?] using reached.le_of_not_reaches missed le
  · simp [Binary64.lessOrEqual, order?]
  · exact absurd (reached.mono le rank'.isLt) missed
  · simp [Binary64.lessOrEqual, order?]

/-- A rational is rounded to one number. -/
theorem RoundsTo.unique {x x' : Binary64} (hq : 0 ≤ q) (h : RoundsTo q x) (h' : RoundsTo q x') :
    x = x' := by
  rw [roundsTo_iff hq] at h h'
  obtain ⟨rank, rfl, reached, missed⟩ | ⟨rfl, reached⟩ := h <;>
    obtain ⟨rank', rfl, reached', missed'⟩ | ⟨rfl, reached'⟩ := h'
  · congr 1
    exact Fin.ext (le_antisymm (reached.le_of_not_reaches missed' le_rfl)
      (reached'.le_of_not_reaches missed le_rfl))
  · exact absurd (reached'.mono le_rfl rank.isLt) missed
  · exact absurd (reached.mono le_rfl rank'.isLt) missed'
  · rfl

end

/-- **A quotient of units is rounded to the number that `RoundsTo` calls for.** -/
theorem roundsTo_ofRatio {n d : ℕ} (hd : 0 < d) :
    RoundsTo (n / (d * 2 ^ 1074)) (ofRatio false n d) := by
  rw [roundsTo_iff (by positivity)]
  have reached := le_nearestRank_iff (n := n) hd
  unfold ofRatio
  dsimp only
  split_ifs with inRange
  · refine .inl ⟨_, rfl, (reached _).1 le_rfl, ?_⟩
    rw [← reached]
    show ¬ nearestRank n d + 1 ≤ nearestRank n d
    omega
  · refine .inr ⟨rfl, ?_⟩
    rw [← reached]
    omega

/-- A magnitude is rounded to itself. -/
theorem nearestRank_units (rank : ℕ) : nearestRank (units rank) 1 = rank := by
  have reached : rank ≤ nearestRank (units rank) 1 := by
    rw [le_nearestRank_iff_units one_pos]
    split_ifs with even
    · have := units_strictMono.monotone (Nat.sub_le rank 1)
      omega
    · have := units_lt_units (show rank - 1 < rank by omega)
      omega
  have missed : ¬ rank + 1 ≤ nearestRank (units rank) 1 := by
    rw [le_nearestRank_iff_units one_pos, Nat.add_sub_cancel]
    have := units_lt_units (Nat.lt_add_one rank)
    split_ifs <;> omega
  omega

theorem ofRatio_eq_finite_iff (negative : Bool) {n d : ℕ} {rank : Fin rankCount} :
    ofRatio negative n d = .finite negative rank ↔ nearestRank n d = rank := by
  unfold ofRatio
  dsimp only
  split_ifs with inRange
  · simp [Fin.ext_iff]
  · refine iff_of_false ?_ fun eq => inRange (eq ▸ rank.isLt)
    rintro ⟨⟩

theorem ofRatio_units (negative : Bool) (rank : Fin rankCount) :
    ofRatio negative (units rank) 1 = .finite negative rank :=
  (ofRatio_eq_finite_iff negative).2 (nearestRank_units rank)

theorem roundsTo_magnitude (rank : Fin rankCount) :
    RoundsTo (magnitude rank) (.finite false rank) := by
  have rounds := roundsTo_ofRatio (n := units rank) one_pos
  rwa [ofRatio_units, Nat.cast_one, one_mul, ← magnitude_eq] at rounds

end Binary64
end SmallImp
