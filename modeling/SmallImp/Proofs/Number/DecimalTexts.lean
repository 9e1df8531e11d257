/-
# What the text of a decimal says

A layout writes a decimal with a point or with an exponent, and either text denotes a rational
(`textValue`).  Whatever the layout, it is the rational of the decimal (`textValue_decimal`): the
digits are those of the coefficient, the point stands as many places after their start as the
exponent says, and zeros fill the places without a digit.  Since the shortest decimal of a magnitude
is rounded to it, the text of a magnitude determines the magnitude (`magnitude_injective`).
-/
import SmallImp.Number.Layout
import SmallImp.Proofs.Number.Literals
import SmallImp.Proofs.Number.ShortestDecimals

namespace SmallImp

open Binary64 Terminal

/-- The rational that a text with a point or an exponent, or both, denotes. -/
def textValue (text : List Char) : ℚ :=
  let exponent := text.dropWhile (· != 'e')
  let size : ℤ := Nat.ofDigitChars 10 (exponent.drop 2) 0
  decimalValue (text.takeWhile (· != 'e')) * 10 ^ (if exponent[1]? = some '-' then -size else size)

/-! ## With a point or with an exponent -/

section
variable {mantissa : List Char}

theorem textValue_of_not_mem (h : 'e' ∉ mantissa) : textValue mantissa = decimalValue mantissa := by
  have all := bne_of_notMem h
  simp [textValue, List.takeWhile_eq_self_iff.2 all, List.dropWhile_eq_nil_iff.2 all]

theorem textValue_append (h : 'e' ∉ mantissa) (sign : Char) (exponent : List Char) :
    textValue (mantissa ++ 'e' :: sign :: exponent) =
      decimalValue mantissa * 10 ^ (if sign = '-' then -(Nat.ofDigitChars 10 exponent 0 : ℤ)
        else Nat.ofDigitChars 10 exponent 0) := by
  have all := bne_of_notMem h
  simp [textValue, List.takeWhile_append_of_pos all, List.dropWhile_append_of_pos all]

end

theorem Terminal.IsDigits.e_notMem {digits : List Char} (h : IsDigits digits) :
    'e' ∉ digits := fun mem => by
  cases h.2 'e' mem

theorem Terminal.IsNumber.e_notMem {text : List Char} (h : IsNumber text) : 'e' ∉ text := by
  cases h with
  | whole digits => exact digits.e_notMem
  | fraction digits more => simp [digits.e_notMem, more.e_notMem]

namespace Layout

section
variable (layout : Layout) {digits : List Char}

/-! ## The digits -/

theorem isDigits_zero : IsDigits ['0'] :=
  ⟨List.cons_ne_nil _ _, List.forall_mem_singleton.2 rfl⟩

theorem isDigits_digits (n : ℕ) : IsDigits (Decimal.digits n) :=
  ⟨Nat.toDigits_ne_nil, fun _ => Nat.isDigit_of_mem_toDigits (by decide) (by decide)⟩

theorem ofDigitChars_digits (n : ℕ) : Nat.ofDigitChars 10 (Decimal.digits n) 0 = n :=
  Nat.ofDigitChars_ten_toDigits

theorem isDigits_padded (width n : ℕ) : IsDigits (padded width n) :=
  (isDigits_digits n).zeros_append _

theorem ofDigitChars_padded (width n : ℕ) : Nat.ofDigitChars 10 (padded width n) 0 = n := by
  rw [padded, Nat.ofDigitChars_append, Nat.ofDigitChars_replicate_zero, mul_zero,
    ofDigitChars_digits]

/-- Digits that stand alone are a number, with `.0` after them too. -/
theorem whole_spec (h : IsDigits digits) :
    IsNumber (layout.whole digits) ∧
      decimalValue (layout.whole digits) = Nat.ofDigitChars 10 digits 0 := by
  rw [← decimalValue_of_not_mem h.point_notMem]
  unfold whole
  split_ifs
  · exact ⟨(IsNumber.whole h).append_point h.point_notMem 0,
      decimalValue_append_point h.point_notMem 1⟩
  · rw [List.append_nil]
    exact ⟨.whole h, rfl⟩

/-- **A point moves the digits**: `point` places of them stand before it. -/
theorem positional_spec (h : IsDigits digits) (point : ℤ) :
    IsNumber (layout.positional digits point) ∧
      decimalValue (layout.positional digits point) =
        Nat.ofDigitChars 10 digits 0 * 10 ^ (point - digits.length) := by
  unfold positional
  split_ifs with small inside
  · have text : ['0', '.'] ++ List.replicate (-point).toNat '0' ++ digits =
        ['0'] ++ '.' :: (List.replicate (-point).toNat '0' ++ digits) := by simp
    have exponent : point - digits.length = -(((-point).toNat + digits.length : ℕ) : ℤ) := by
      omega
    rw [text]
    refine ⟨.fraction isDigits_zero (h.zeros_append _), ?_⟩
    rw [decimalValue_append isDigits_zero.point_notMem, Nat.ofDigitChars_append,
      Nat.ofDigitChars_replicate_zero, mul_zero, List.length_append, List.length_replicate,
      exponent, zpow_neg, zpow_natCast, div_eq_mul_inv]
    simp [Nat.ofDigitChars_cons]
  · obtain ⟨places, rfl⟩ := Int.eq_ofNat_of_zero_le (not_le.1 small).le
    rw [Int.toNat_natCast]
    have before : IsDigits (digits.take places) := by
      refine ⟨?_, fun c mem => h.2 c (List.mem_of_mem_take mem)⟩
      rw [← List.length_pos_iff, List.length_take]
      omega
    have after : IsDigits (digits.drop places) := by
      refine ⟨?_, fun c mem => h.2 c (List.mem_of_mem_drop mem)⟩
      rw [← List.length_pos_iff, List.length_drop]
      omega
    have whole : Nat.ofDigitChars 10 digits 0 =
        10 ^ (digits.length - places) * Nat.ofDigitChars 10 (digits.take places) 0 +
          Nat.ofDigitChars 10 (digits.drop places) 0 := by
      rw [← List.length_drop, ← Nat.ofDigitChars_eq_ofDigitChars_zero, ← Nat.ofDigitChars_append,
        List.take_append_drop]
    have exponent : (places : ℤ) - digits.length = -((digits.length - places : ℕ) : ℤ) := by omega
    rw [List.append_assoc, List.singleton_append]
    refine ⟨.fraction before after, ?_⟩
    rw [decimalValue_append before.point_notMem, whole, List.length_drop, exponent, zpow_neg,
      zpow_natCast]
    push_cast
    field_simp
  · have exponent : point - digits.length = (point.toNat - digits.length : ℕ) := by omega
    obtain ⟨number, value⟩ := layout.whole_spec (h.append_zeros (point.toNat - digits.length))
    refine ⟨number, ?_⟩
    rw [value, Nat.ofDigitChars_append, Nat.ofDigitChars_replicate_zero, exponent, zpow_natCast,
      mul_comm]
    push_cast
    rfl

/-- The digits before an exponent are those of the first place before the point. -/
theorem scientific_eq (h : digits ≠ []) (exponent : ℤ) :
    layout.scientific digits exponent = printed.positional digits 1 ++
      'e' :: (if exponent < 0 then '-' else '+') ::
        padded layout.exponentWidth exponent.natAbs := by
  cases digits with
  | nil => exact absurd rfl h
  | cons c more =>
    cases more with
    | nil => simp [scientific, positional, printed, whole]
    | cons d more => simp [scientific, positional]

theorem textValue_scientific (h : IsDigits digits) (exponent : ℤ) :
    textValue (layout.scientific digits exponent) =
      Nat.ofDigitChars 10 digits 0 * 10 ^ (exponent + 1 - digits.length) := by
  obtain ⟨number, value⟩ := printed.positional_spec h 1
  have size : (if (if exponent < 0 then '-' else '+') = '-' then -(exponent.natAbs : ℤ)
      else exponent.natAbs) = exponent := by
    by_cases negative : exponent < 0
    · rw [if_pos negative, if_pos rfl]
      omega
    · rw [if_neg negative, if_neg (by decide)]
      omega
  rw [scientific_eq _ h.1, textValue_append number.e_notMem, ofDigitChars_padded, size, value,
    mul_assoc, ← zpow_add₀ (by norm_num)]
  congr 2
  ring

/-! ## Decimals and magnitudes -/

/-- **The text of a decimal denotes it.** -/
theorem textValue_decimal (decimal : Decimal) :
    textValue (layout.decimal decimal) = decimal.value := by
  have digits := isDigits_digits decimal.coefficient
  have number := layout.positional_spec digits
    (decimal.exponent + (Decimal.digits decimal.coefficient).length)
  unfold Layout.decimal Decimal.value
  dsimp only
  split_ifs
  · rw [textValue_of_not_mem number.1.e_notMem, number.2, ofDigitChars_digits, add_sub_cancel_right]
  · rw [textValue_scientific _ digits, ofDigitChars_digits, sub_add_cancel, add_sub_cancel_right]

/-- The text of a magnitude starts with a digit. -/
theorem exists_magnitude_cons (rank : ℕ) :
    ∃ c rest, layout.magnitude rank = c :: rest ∧ c.isDigit = true := by
  have front {text : List Char} (h : IsNumber text) (more : List Char) :
      ∃ c rest, text ++ more = c :: rest ∧ c.isDigit = true := by
    cases text with
    | nil => exact absurd rfl (Lexeme.number h).ne_nil
    | cons c rest => exact ⟨c, rest ++ more, rfl, h.head_isDigit⟩
  unfold magnitude Layout.decimal
  dsimp only
  split_ifs
  · simpa using front (layout.whole_spec isDigits_zero).1 []
  · simpa using front (layout.positional_spec (isDigits_digits _) _).1 []
  · rw [scientific_eq _ (isDigits_digits _).1]
    exact front (printed.positional_spec (isDigits_digits _) 1).1 _

/-- The text of a magnitude denotes a rational that is rounded to it. -/
theorem roundsTo_magnitude (rank : Fin rankCount) :
    RoundsTo (textValue (layout.magnitude rank)) (.finite false rank) := by
  unfold magnitude
  split_ifs with zero
  · obtain ⟨number, value⟩ := layout.whole_spec isDigits_zero
    have nothing : Nat.ofDigitChars 10 ['0'] 0 = 0 := rfl
    rw [← textValue_of_not_mem number.e_notMem, nothing, Nat.cast_zero, ← magnitude_zero,
      ← zero] at value
    exact value ▸ Binary64.roundsTo_magnitude rank
  · rw [textValue_decimal]
    exact Decimal.roundsTo_shortest (Nat.pos_of_ne_zero zero)

/-- **The text of a magnitude determines it.** -/
theorem magnitude_injective {rank other : Fin rankCount}
    (h : layout.magnitude rank = layout.magnitude other) : rank = other := by
  have rounds := layout.roundsTo_magnitude rank
  have rounds' := layout.roundsTo_magnitude other
  rw [h] at rounds
  have nonneg : 0 ≤ textValue (layout.magnitude other) := by
    unfold textValue
    exact mul_nonneg (decimalValue_nonneg _) (by positivity)
  cases rounds.unique nonneg rounds'
  rfl

end

end Layout

end SmallImp
