/-
# Printed numbers

A printed number has an exponent just if it is not zero and its magnitude lies below the number
nearest to `10 ^ -6`, or from `10 ^ 21` on.  The layout compares digits and exponents of the
shortest decimal with these bounds.  A power of ten compares with a decimal by its number of digits
(`Decimal.lt_zpow_iff`), both bounds are the shortest decimals of numbers, and shortest decimals are
in the order of their numbers; so the comparison is one of magnitudes (`isPositional_iff`).

A magnitude is printed as a number without a sign, or in exponent form, and from either it can be
told (`Layout.magnitude_injective`).  The sign and the words for the values that are not finite
start with other characters, so a printed text determines the value but for the sign of a zero
(`Value.eq_of_text_eq`).
-/
import SmallImp.Proofs.Number.DecimalTexts
import SmallImp.Proofs.Text.JsonText
import SmallImp.Value

namespace SmallImp

open Binary64
open Terminal (IsDigits IsNumber)

/-! ## Forms of texts -/

/-- Exponent form: digits, perhaps with a fraction, then `e`, a sign and an exponent that has no
zeros in front. -/
inductive IsScientific : List Char → Prop
  | intro {mantissa exponent : List Char} {sign : Char} (number : IsNumber mantissa)
      (signed : sign = '+' ∨ sign = '-') (digits : IsDigits exponent)
      (front : exponent.head? ≠ some '0') : IsScientific (mantissa ++ 'e' :: sign :: exponent)

/-- A text of some form, perhaps with a minus before it. -/
def Signed (form : List Char → Prop) (text : List Char) : Prop :=
  form text ∨ ∃ rest, text = '-' :: rest ∧ form rest

theorem Signed.append_sign {form : List Char → Prop} {text : List Char} {q : ℚ} (h : form text) :
    Signed form ((if q < 0 then ['-'] else []) ++ text) := by
  split_ifs
  · exact .inr ⟨text, rfl, h⟩
  · exact .inl h

theorem Signed.e_mem {text : List Char} (h : Signed IsScientific text) : 'e' ∈ text := by
  rcases h with form | ⟨rest, rfl, form⟩ <;> cases form <;> simp

theorem Signed.e_notMem {text : List Char} (h : Signed IsNumber text) : 'e' ∉ text := by
  rcases h with form | ⟨rest, rfl, form⟩ <;> simp [form.e_notMem]

/-! ## The bounds of the positional form -/

/-- **A decimal lies below `10 ^ k` just if its first digit stands at most `k` places before the
point.** -/
theorem Decimal.lt_zpow_iff {decimal : Decimal} (positive : 0 < decimal.coefficient) (k : ℤ) :
    decimal.value < 10 ^ k ↔
      decimal.exponent + (Decimal.digits decimal.coefficient).length ≤ k := by
  have ten : (0 : ℚ) < 10 ^ decimal.exponent := by positivity
  have digits : 0 < (Decimal.digits decimal.coefficient).length := Nat.length_toDigits_pos
  have split : (10 : ℚ) ^ k = 10 ^ (k - decimal.exponent) * 10 ^ decimal.exponent := by
    rw [← zpow_add₀ (by norm_num), sub_add_cancel]
  rw [value, split, mul_lt_mul_iff_of_pos_right ten]
  by_cases within : 0 < k - decimal.exponent
  · obtain ⟨places, eq⟩ := Int.eq_ofNat_of_zero_le within.le
    have length : (Decimal.digits decimal.coefficient).length ≤ places ↔
        decimal.coefficient < 10 ^ places :=
      Nat.length_toDigits_le_iff (by norm_num) (by omega)
    rw [eq, zpow_natCast]
    have cast : (decimal.coefficient : ℚ) < 10 ^ places ↔ decimal.coefficient < 10 ^ places := by
      exact_mod_cast Iff.rfl
    rw [cast, ← length]
    omega
  · refine iff_of_false (not_lt.2 ?_) (by omega)
    calc (10 : ℚ) ^ (k - decimal.exponent) ≤ 1 :=
          zpow_le_one_of_nonpos₀ (by norm_num) (not_lt.1 within)
      _ ≤ decimal.coefficient := by exact_mod_cast positive

/-- The number nearest to `10 ^ -6`, the least one that is printed without an exponent. -/
theorem ofDecimal_least : ∃ rank : Fin rankCount, ofDecimal 1 6 = .finite false rank ∧
    0 < rank.val ∧ Decimal.shortest rank = ⟨1, -6⟩ :=
  ⟨⟨4517329193108106637, by decide +kernel⟩, by decide +kernel, by decide +kernel,
    by decide +kernel⟩

/-- `10 ^ 21` is a number, the least one that is too great for it. -/
theorem magnitude_greatest : ∃ rank : Fin rankCount, magnitude rank = 10 ^ 21 ∧
    0 < rank.val ∧ Decimal.shortest rank = ⟨1, 21⟩ := by
  have whole : units 4921056587992461136 = 10 ^ 21 * unitsPerOne := by decide +kernel
  refine ⟨⟨4921056587992461136, by decide +kernel⟩, ?_, by decide +kernel, by decide +kernel⟩
  have unit : (2 : ℚ) ^ 1074 ≠ 0 := by positivity
  show magnitude 4921056587992461136 = 10 ^ 21
  rw [magnitude_eq, whole, Nat.cast_mul, unitsPerOne_cast, mul_div_cancel_right₀ _ unit]
  norm_num

/-- **The positional form is for the magnitudes between the bounds.** -/
theorem isPositional_iff {rank : Fin rankCount} (positive : 0 < rank.val) {least : ℚ}
    (h : (ofDecimal 1 6).value? = some least) :
    (Layout.printed.positionalFrom < (Decimal.shortest rank).exponent +
        (Decimal.digits (Decimal.shortest rank).coefficient).length ∧
      (Decimal.shortest rank).exponent +
        (Decimal.digits (Decimal.shortest rank).coefficient).length ≤
          Layout.printed.positionalBelow) ↔
      least ≤ magnitude rank ∧ magnitude rank < 10 ^ 21 := by
  obtain ⟨low, number, lowPos, lowShortest⟩ := ofDecimal_least
  obtain ⟨high, bound, highPos, highShortest⟩ := magnitude_greatest
  rw [number] at h
  obtain rfl : magnitude low = least := Option.some.inj h
  have power (k : ℤ) : (⟨1, k⟩ : Decimal).value = 10 ^ k := by simp [Decimal.value]
  have bounds : Layout.printed.positionalFrom = -6 ∧ Layout.printed.positionalBelow = 21 :=
    ⟨rfl, rfl⟩
  have coefficient := Decimal.coefficient_pos positive (Decimal.roundsTo_shortest positive)
  have below := Decimal.lt_zpow_iff coefficient (-6)
  have above := Decimal.lt_zpow_iff coefficient 21
  rw [← power, ← lowShortest, Decimal.shortest_lt_iff positive lowPos] at below
  rw [← power, ← highShortest, Decimal.shortest_lt_iff positive highPos] at above
  rw [bounds.1, bounds.2, ← bound, magnitude_strictMono.le_iff_le,
    magnitude_strictMono.lt_iff_lt, ← above, ← not_lt, ← not_le, below]

namespace Layout

section
variable {rank : Fin rankCount}

theorem padded_of_width_le {width n : ℕ} (h : width ≤ 1) : padded width n = Decimal.digits n := by
  have : 0 < (Decimal.digits n).length := Nat.length_toDigits_pos
  rw [padded, Nat.sub_eq_zero_of_le (by omega), List.replicate_zero, List.nil_append]

theorem isNumber_magnitude {least : ℚ} (h : (ofDecimal 1 6).value? = some least)
    (positional : rank.val = 0 ∨
      least ≤ Binary64.magnitude rank ∧ Binary64.magnitude rank < 10 ^ 21) :
    IsNumber (printed.magnitude rank) := by
  unfold magnitude
  split_ifs with zero
  · exact (printed.whole_spec isDigits_zero).1
  · have bounds := (isPositional_iff (Nat.pos_of_ne_zero zero) h).2 (positional.resolve_left zero)
    unfold Layout.decimal
    dsimp only
    rw [if_pos bounds]
    exact (printed.positional_spec (isDigits_digits _) _).1

theorem isScientific_magnitude {least : ℚ} (h : (ofDecimal 1 6).value? = some least)
    (positive : 0 < rank.val)
    (outside : Binary64.magnitude rank < least ∨ 10 ^ 21 ≤ Binary64.magnitude rank) :
    IsScientific (printed.magnitude rank) := by
  have bounds := (isPositional_iff positive h).not.2
    fun inside => outside.elim inside.1.not_gt inside.2.not_ge
  unfold magnitude Layout.decimal
  dsimp only
  rw [if_neg positive.ne', if_neg bounds, scientific_eq _ (isDigits_digits _).1]
  refine .intro (printed.positional_spec (isDigits_digits _) 1).1 ?_ (isDigits_padded ..) ?_
  · split_ifs
    · exact .inr rfl
    · exact .inl rfl
  · -- a width of one leaves the digits alone, and the exponent is not zero
    have width : printed.exponentWidth ≤ 1 := le_rfl
    have range : printed.positionalFrom < 1 ∧ 1 ≤ printed.positionalBelow := by decide
    rw [padded_of_width_le width]
    intro front
    have := Json.head_toDigits _ front
    omega

end

end Layout

/-! ## Signs -/

namespace Binary64

theorem less_zero_infinity (negative : Bool) :
    (infinity negative).less (zero false) = negative := by
  have : ¬ (rankCount : ℤ) < 0 := by omega
  cases negative <;> simp [less, order?, zero, rankCount_pos, this]

theorem less_zero_finite (negative : Bool) (rank : Fin rankCount) :
    (finite negative rank).less (zero false) = (negative && rank.val != 0) := by
  have : ¬ (rank.val : ℤ) < 0 := by omega
  cases negative
  · simp [less, order?, zero, this]
  · rw [Bool.eq_iff_iff]
    simp [less, order?, zero, Nat.pos_iff_ne_zero]

theorem neg_abs (x : Binary64) : x.neg.abs = x.abs := by
  cases x <;> rfl

theorem value?_neg {x : Binary64} {q : ℚ} (h : x.value? = some q) : x.neg.value? = some (-q) := by
  cases x with
  | nan | infinity => cases h
  | finite negative rank =>
    obtain rfl := Option.some.inj h
    cases negative <;> simp [neg, value?]

/-- A number is known by its magnitude and by whether it lies below zero, but for the sign of a
zero. -/
theorem eq_or_zero {x y : Binary64} (magnitude : x.abs = y.abs)
    (sign : x.less (zero false) = y.less (zero false)) :
    x = y ∨ ∃ negative negative', x = zero negative ∧ y = zero negative' := by
  cases x <;> cases y <;> try cases magnitude
  case nan.nan => exact .inl rfl
  case infinity.infinity negative negative' =>
    rw [less_zero_infinity, less_zero_infinity] at sign
    exact .inl (congrArg _ sign)
  case finite.finite negative rank negative' =>
    rw [less_zero_finite, less_zero_finite] at sign
    by_cases nothing : rank.val = 0
    · obtain rfl : rank = ⟨0, rankCount_pos⟩ := Fin.ext nothing
      exact .inr ⟨negative, negative', rfl, rfl⟩
    · rw [bne_iff_ne.2 nothing, Bool.and_true, Bool.and_true] at sign
      exact .inl (by rw [sign])

end Binary64

namespace Layout

/-- **A minus is printed before the numbers below zero**, and after it what is printed for the
number without its sign. -/
theorem number_eq_append_abs (x : Binary64) :
    printed.number x =
      (if x.less (zero false) = true then ['-'] else []) ++ printed.number x.abs := by
  cases x with
  | nan => rfl
  | infinity negative => simp [number, less_zero_infinity, Binary64.abs]
  | finite negative rank => simp [number, printed, less_zero_finite, Binary64.abs]

theorem exists_number_abs_cons (x : Binary64) :
    ∃ c rest, printed.number x.abs = c :: rest ∧ (c.isDigit = true ∨ c = 'N' ∨ c = 'I') := by
  cases x with
  | nan => exact ⟨'N', "aN".toList, rfl, .inr (.inl rfl)⟩
  | infinity negative => exact ⟨'I', "nfinity".toList, rfl, .inr (.inr rfl)⟩
  | finite negative rank =>
    obtain ⟨c, rest, text, digit⟩ := printed.exists_magnitude_cons rank
    exact ⟨c, rest, text, .inl digit⟩

theorem number_abs_injective {x y : Binary64} (h : printed.number x.abs = printed.number y.abs) :
    x.abs = y.abs := by
  have digit (rank : ℕ) {c : Char} {rest : List Char} (letter : c.isDigit = false) :
      printed.magnitude rank ≠ c :: rest := by
    obtain ⟨d, more, text, digit⟩ := printed.exists_magnitude_cons rank
    rw [text]
    rintro ⟨⟩
    rw [letter] at digit
    cases digit
  cases x <;> cases y
  case finite.finite negative rank negative' rank' =>
    have same : printed.magnitude rank = printed.magnitude rank' := h
    rw [Binary64.abs, Binary64.abs, printed.magnitude_injective same]
  case nan.nan | infinity.infinity => rfl
  case nan.infinity | infinity.nan => cases h
  case nan.finite | infinity.finite => exact absurd h.symm (digit _ rfl)
  case finite.nan | finite.infinity => exact absurd h (digit _ rfl)

/-- What is printed of two numbers is the same only if the numbers are, but for the sign of a
zero. -/
theorem number_injective {x y : Binary64} (h : printed.number x = printed.number y) :
    x = y ∨ ∃ negative negative', x = zero negative ∧ y = zero negative' := by
  obtain ⟨c, rest, hx, first⟩ := exists_number_abs_cons x
  obtain ⟨d, more, hy, first'⟩ := exists_number_abs_cons y
  have minus : ¬ ('-'.isDigit = true ∨ '-' = 'N' ∨ '-' = 'I') := by decide
  have parts : x.less (zero false) = y.less (zero false) ∧
      printed.number x.abs = printed.number y.abs := by
    rw [number_eq_append_abs x, number_eq_append_abs y, hx, hy] at h
    rw [hx, hy]
    generalize x.less (zero false) = below at h ⊢
    generalize y.less (zero false) = below' at h ⊢
    cases below <;> cases below'
    · exact ⟨rfl, h⟩
    · exact absurd ((List.cons.inj h).1 ▸ first) minus
    · exact absurd ((List.cons.inj h).1 ▸ first') minus
    · exact ⟨rfl, (List.cons.inj h).2⟩
  exact eq_or_zero (number_abs_injective parts.2) parts.1

end Layout

namespace Value

/-- No number is printed like a boolean: they start with other characters. -/
theorem text_number_ne_boolean (x : Binary64) (b : Bool) :
    (Value.number x).text ≠ (Value.boolean b).text := by
  obtain ⟨c, rest, text, first⟩ := Layout.exists_number_abs_cons x
  have word : ∃ d more, (Value.boolean b).text.toList = d :: more ∧ (d = 't' ∨ d = 'f') := by
    cases b
    · exact ⟨'f', "alse".toList, rfl, .inr rfl⟩
    · exact ⟨'t', "rue".toList, rfl, .inl rfl⟩
  obtain ⟨d, more, word, letter⟩ := word
  intro h
  rw [← h, Value.text, String.toList_ofList, Layout.number_eq_append_abs, text] at word
  generalize x.less (zero false) = below at word
  cases below
  · obtain rfl : c = d := (List.cons.inj word).1
    rcases letter with rfl | rfl
    · exact absurd first (by decide)
    · exact absurd first (by decide)
  · obtain rfl : '-' = d := (List.cons.inj word).1
    exact absurd letter (by decide)

/-- **What is printed determines the value**, but for the sign of a zero. -/
theorem eq_of_text_eq {a b : Value} (h : a.text = b.text) :
    a = b ∨ ∃ negative negative', a = .number (zero negative) ∧ b = .number (zero negative') := by
  cases a <;> cases b
  case number.number x y =>
    obtain rfl | ⟨s, s', rfl, rfl⟩ := Layout.number_injective (String.ofList_injective h)
    · exact .inl rfl
    · exact .inr ⟨s, s', rfl, rfl⟩
  case number.boolean x b => exact absurd h (text_number_ne_boolean x b)
  case boolean.number b x => exact absurd h.symm (text_number_ne_boolean x b)
  case boolean.boolean b b' =>
    cases b <;> cases b'
    · exact .inl rfl
    · exact absurd h (by decide)
    · exact absurd h (by decide)
    · exact .inl rfl

/-! ## What is printed -/

section
variable {x : Binary64} {q least : ℚ}

/-- The text of a number that stands for a rational: its sign and its magnitude. -/
theorem exists_text_number (hx : x.value? = some q) :
    ∃ rank : Fin rankCount, x.abs = .finite false rank ∧ |q| = magnitude rank ∧
      (Value.number x).text.toList =
        (if q < 0 then ['-'] else []) ++ Layout.printed.magnitude rank := by
  have below : x.less (zero false) = true ↔ q < 0 := by
    rw [less_iff hx rfl]
    simp [magnitude_zero]
  rw [Value.text, String.toList_ofList, Layout.number_eq_append_abs]
  simp only [below]
  cases x with
  | nan | infinity => cases hx
  | finite negative rank =>
    obtain rfl := Option.some.inj hx
    exact ⟨rank, rfl, abs_signed negative rank, rfl⟩

/-- **A number is printed with an exponent just if it is out of the range of the positional
form.** -/
theorem text_forms (hx : x.value? = some q) (hleast : (ofDecimal 1 6).value? = some least) :
    (Signed IsScientific (Value.number x).text.toList ↔
        q ≠ 0 ∧ (|q| < least ∨ 10 ^ 21 ≤ |q|)) ∧
      (Signed IsNumber (Value.number x).text.toList ↔
        ¬ (q ≠ 0 ∧ (|q| < least ∨ 10 ^ 21 ≤ |q|))) := by
  obtain ⟨rank, -, size, text⟩ := exists_text_number hx
  have zero_iff : q = 0 ↔ rank.val = 0 := by
    rw [← abs_eq_zero, size, ← magnitude_zero, magnitude_strictMono.injective.eq_iff]
  have scientific (h : q ≠ 0 ∧ (|q| < least ∨ 10 ^ 21 ≤ |q|)) :
      Signed IsScientific (Value.number x).text.toList := by
    rw [size, ne_eq, zero_iff] at h
    rw [text]
    exact .append_sign (Layout.isScientific_magnitude hleast (Nat.pos_of_ne_zero h.1) h.2)
  have positional (h : ¬ (q ≠ 0 ∧ (|q| < least ∨ 10 ^ 21 ≤ |q|))) :
      Signed IsNumber (Value.number x).text.toList := by
    rw [size, ne_eq, zero_iff, not_and_or, not_not, not_or, not_lt, not_le] at h
    rw [text]
    exact .append_sign (Layout.isNumber_magnitude hleast h)
  -- only a text with an exponent has an `e` in it
  constructor
  · refine ⟨fun form => ?_, scientific⟩
    by_contra h
    exact (positional h).e_notMem form.e_mem
  · exact ⟨fun form h => form.e_notMem (scientific h).e_mem, positional⟩

/-- **Without a sign and an exponent a printed number is a literal for itself.** -/
theorem text_literal (hx : x.value? = some q) (nonneg : 0 ≤ q)
    (form : Signed IsNumber (Value.number x).text.toList) :
    IsNumber (Value.number x).text.toList ∧
      Binary64.ofLiteral (Value.number x).text.toList = x.abs ∧
      (Binary64.ofLiteral (Value.number x).text.toList).equal x = true := by
  obtain ⟨rank, abs, size, text⟩ := exists_text_number hx
  rw [if_neg (not_lt.2 nonneg), List.nil_append] at text
  rw [text] at form ⊢
  have number : IsNumber (Layout.printed.magnitude rank) := by
    rcases form with number | ⟨rest, minus, -⟩
    · exact number
    · obtain ⟨c, more, front, digit⟩ := Layout.printed.exists_magnitude_cons rank
      rw [front] at minus
      cases (List.cons.inj minus).1
      cases digit
  have rounds := Layout.printed.roundsTo_magnitude rank
  rw [textValue_of_not_mem number.e_notMem] at rounds
  have read := (roundsTo_ofLiteral _).unique (decimalValue_nonneg _) rounds
  rw [read]
  refine ⟨number, abs.symm, ?_⟩
  rw [equal_iff rfl hx, ← abs_of_nonneg nonneg, size]
  rfl

/-- Below zero a minus stands before the text of the opposite number. -/
theorem text_of_neg (hx : x.value? = some q) (below : q < 0) :
    (Value.number x).text.toList = '-' :: (Value.number x.neg).text.toList := by
  obtain ⟨rank, abs, -, text⟩ := exists_text_number hx
  obtain ⟨rank', abs', -, text'⟩ := exists_text_number (value?_neg hx)
  rw [neg_abs, abs] at abs'
  cases abs'
  rw [text, text', if_pos below, if_neg (by linarith)]
  rfl

theorem text_of_zero (hx : x.value? = some 0) : (Value.number x).text = "0" := by
  obtain ⟨rank, -, size, text⟩ := exists_text_number hx
  have zero : rank.val = 0 := by
    rw [abs_zero, ← magnitude_zero] at size
    exact (magnitude_strictMono.injective size).symm
  rw [zero, if_neg (lt_irrefl _)] at text
  exact String.toList_injective text

/-- **A printed number can be read back.**  It has an exponent just if it is not zero and its
magnitude is less than the number nearest to `10 ^ -6`, or `10 ^ 21` or more.  From zero on and
without an exponent it is a literal for itself; below zero it is a minus and the text of the
opposite number.  So what is printed determines the value, but for the sign of a zero. -/
theorem text_readBack :
    (∀ x q least, x.value? = some q → (ofDecimal 1 6).value? = some least →
      (Signed IsScientific (Value.number x).text.toList ↔
        q ≠ 0 ∧ (|q| < least ∨ 10 ^ 21 ≤ |q|)) ∧
      (Signed IsNumber (Value.number x).text.toList ↔
        ¬ (q ≠ 0 ∧ (|q| < least ∨ 10 ^ 21 ≤ |q|))) ∧
      (0 ≤ q → Signed IsNumber (Value.number x).text.toList →
        IsNumber (Value.number x).text.toList ∧
          Binary64.ofLiteral (Value.number x).text.toList = x.abs ∧
          (Binary64.ofLiteral (Value.number x).text.toList).equal x = true) ∧
      (q < 0 → (Value.number x).text.toList = '-' :: (Value.number x.neg).text.toList) ∧
      (q = 0 → (Value.number x).text = "0")) ∧
    (∀ a b : Value, a.text = b.text →
      a = b ∨ ∃ negative negative', a = .number (zero negative) ∧ b = .number (zero negative')) ∧
    ∀ x b, (Value.number x).text ≠ (Value.boolean b).text := by
  refine ⟨?_, fun a b => eq_of_text_eq, text_number_ne_boolean⟩
  intro x q least hx hleast
  obtain ⟨scientific, positional⟩ := text_forms hx hleast
  refine ⟨scientific, positional, fun nonneg => text_literal hx nonneg, text_of_neg hx, ?_⟩
  rintro rfl
  exact text_of_zero hx

/-- The number before `10 ^ 21` is the last one that is printed without an exponent. -/
theorem text_readBack_last :
    let x : Binary64 := .finite false ⟨4921056587992461135, by decide +kernel⟩
    x.value? = some (magnitude 4921056587992461135) ∧
      (ofDecimal 1 6).value? = some (magnitude 4517329193108106637) ∧
      (Value.number x).text = "999999999999999900000" ∧
      magnitude 4921056587992461135 < 10 ^ 21 ∧
      Binary64.ofLiteral "999999999999999900000".toList = x := by
  intro x
  have least : ofDecimal 1 6 = .finite false ⟨4517329193108106637, by decide +kernel⟩ := by
    decide +kernel
  have hleast : (ofDecimal 1 6).value? = some (magnitude 4517329193108106637) := by
    rw [least]
    rfl
  have text : (Value.number x).text = "999999999999999900000" := by decide +kernel
  have digits : "999999999999999900000".toList.all Char.isDigit = true := by decide +kernel
  have form : Signed IsNumber (Value.number x).text.toList := by
    rw [text]
    exact .inl (.whole ⟨by decide +kernel, List.all_eq_true.1 digits⟩)
  have hx : x.value? = some (magnitude 4921056587992461135) := rfl
  obtain ⟨-, bounds, readBack, -⟩ := text_readBack.1 x _ _ hx hleast
  have positive : magnitude 4921056587992461135 ≠ 0 :=
    (magnitude_zero ▸ magnitude_strictMono (by norm_num : 0 < 4921056587992461135)).ne'
  have nonneg := magnitude_nonneg 4921056587992461135
  refine ⟨hx, hleast, text, ?_, ?_⟩
  · have inside := bounds.1 form
    rw [not_and_or, not_not, not_or, not_le, abs_of_nonneg nonneg] at inside
    exact (inside.resolve_left positive).2
  · rw [← text]
    exact (readBack nonneg form).2.1

end

end Value

end SmallImp
