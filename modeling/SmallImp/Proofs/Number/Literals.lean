/-
# Literals are rounded correctly

A literal denotes a rational (`decimalValue`): its digits before the point count ones, tens and so
on, and those after it tenths and so on.  The number that it stands for is the one that this
rational is rounded to, however long it is (`roundsTo_ofLiteral`).  So only the rational matters,
and neither zeros in front nor zeros at the end of the fraction.
-/
import SmallImp.Number.Literal
import SmallImp.Proofs.Number.Rounding
import SmallImp.Proofs.Token.Lexemes

namespace SmallImp
namespace Binary64

/-- The rational that a decimal numeral denotes. -/
def decimalValue (lexeme : List Char) : ℚ :=
  let whole := lexeme.takeWhile (· != '.')
  let fraction := (lexeme.dropWhile (· != '.')).drop 1
  Nat.ofDigitChars 10 whole 0 + Nat.ofDigitChars 10 fraction 0 / 10 ^ fraction.length

/-! ## The rational of a literal -/

theorem numeral_eq (value : ℕ) (text : List Char) :
    numeral value text = Nat.ofDigitChars 10 text value := by
  induction text generalizing value with
  | nil =>
    unfold numeral
    exact Nat.ofDigitChars_nil.symm
  | cons c rest ih =>
    unfold numeral
    rw [Nat.ofDigitChars_cons]
    exact ih _

theorem bne_of_notMem {mark : Char} {text : List Char} (h : mark ∉ text) :
    ∀ c ∈ text, (c != mark) = true := fun _ mem => bne_iff_ne.2 fun eq => h (eq ▸ mem)

section
variable {whole fraction : List Char}

/-- The value of a numeral without a point. -/
theorem decimalValue_of_not_mem (h : '.' ∉ whole) :
    decimalValue whole = Nat.ofDigitChars 10 whole 0 := by
  have all := bne_of_notMem h
  simp [decimalValue, List.takeWhile_eq_self_iff.2 all, List.dropWhile_eq_nil_iff.2 all]

/-- The value of a numeral with a point. -/
theorem decimalValue_append (h : '.' ∉ whole) :
    decimalValue (whole ++ '.' :: fraction) =
      Nat.ofDigitChars 10 whole 0 + Nat.ofDigitChars 10 fraction 0 / 10 ^ fraction.length := by
  have all := bne_of_notMem h
  simp [decimalValue, List.takeWhile_append_of_pos all, List.dropWhile_append_of_pos all]

end

theorem decimalValue_nonneg (lexeme : List Char) : 0 ≤ decimalValue lexeme := by
  unfold decimalValue
  positivity

/-- The number nearest to digits over a power of ten. -/
theorem roundsTo_ofDecimal (digits places : ℕ) :
    RoundsTo (digits / 10 ^ places) (ofDecimal digits places) := by
  have unit : (2 : ℚ) ^ 1074 ≠ 0 := by positivity
  have rounds := roundsTo_ofRatio (n := digits * unitsPerOne)
    (Nat.pow_pos (n := places) (by norm_num : 0 < 10))
  rw [Nat.cast_mul, unitsPerOne_cast, mul_div_mul_right _ _ unit, Nat.cast_pow] at rounds
  exact rounds

/-- **A literal is rounded correctly.** -/
theorem roundsTo_ofLiteral (lexeme : List Char) :
    RoundsTo (decimalValue lexeme) (ofLiteral lexeme) := by
  unfold ofLiteral decimalValue
  generalize lexeme.takeWhile (· != '.') = whole
  generalize (lexeme.dropWhile (· != '.')).drop 1 = fraction
  -- the digits after the point move those before it
  have moved : numeral 0 (whole ++ fraction) =
      10 ^ fraction.length * Nat.ofDigitChars 10 whole 0 + Nat.ofDigitChars 10 fraction 0 := by
    rw [numeral_eq, Nat.ofDigitChars_append, Nat.ofDigitChars_eq_ofDigitChars_zero]
  have split : (Nat.ofDigitChars 10 whole 0 +
      Nat.ofDigitChars 10 fraction 0 / 10 ^ fraction.length : ℚ) =
      (numeral 0 (whole ++ fraction) : ℕ) / 10 ^ fraction.length := by
    rw [moved]
    push_cast
    field_simp
  rw [split]
  exact roundsTo_ofDecimal ..

/-- Literals that denote the same rational stand for the same number. -/
theorem ofLiteral_congr {lexeme other : List Char} (h : decimalValue lexeme = decimalValue other) :
    ofLiteral lexeme = ofLiteral other :=
  (roundsTo_ofLiteral lexeme).unique (decimalValue_nonneg _) (h ▸ roundsTo_ofLiteral other)

/-! ## Zeros that do not matter -/

theorem decimalValue_zeros_append (n : ℕ) (lexeme : List Char) :
    decimalValue (List.replicate n '0' ++ lexeme) = decimalValue lexeme := by
  have all := bne_of_notMem (show '.' ∉ List.replicate n '0' by simp)
  simp only [decimalValue, List.takeWhile_append_of_pos all, List.dropWhile_append_of_pos all,
    Nat.ofDigitChars_append, Nat.ofDigitChars_replicate_zero, mul_zero]

theorem decimalValue_append_zeros {lexeme : List Char} (point : '.' ∈ lexeme) (n : ℕ) :
    decimalValue (lexeme ++ List.replicate n '0') = decimalValue lexeme := by
  obtain ⟨whole, fraction, rfl, first⟩ := List.eq_append_cons_of_mem point
  rw [List.append_assoc, List.cons_append, decimalValue_append first, decimalValue_append first,
    Nat.ofDigitChars_append, Nat.ofDigitChars_replicate_zero, List.length_append,
    List.length_replicate, pow_add]
  push_cast
  field_simp

theorem decimalValue_append_point {lexeme : List Char} (point : '.' ∉ lexeme) (n : ℕ) :
    decimalValue (lexeme ++ '.' :: List.replicate n '0') = decimalValue lexeme := by
  rw [decimalValue_append point, decimalValue_of_not_mem point, Nat.ofDigitChars_replicate_zero]
  simp

end Binary64

namespace Terminal

section
variable {digits lexeme : List Char}

theorem IsDigits.point_notMem (h : IsDigits digits) : '.' ∉ digits := fun mem => by
  cases h.2 '.' mem

theorem isDigit_of_mem_zeros {n : ℕ} {c : Char} (mem : c ∈ List.replicate n '0') :
    c.isDigit = true := by
  rw [List.eq_of_mem_replicate mem]
  rfl

theorem IsDigits.zeros_append (h : IsDigits digits) (n : ℕ) :
    IsDigits (List.replicate n '0' ++ digits) :=
  ⟨List.append_ne_nil_of_right_ne_nil _ h.1,
    List.forall_mem_append.2 ⟨fun _ => isDigit_of_mem_zeros, h.2⟩⟩

theorem IsDigits.append_zeros (h : IsDigits digits) (n : ℕ) :
    IsDigits (digits ++ List.replicate n '0') :=
  ⟨List.append_ne_nil_of_left_ne_nil h.1 _,
    List.forall_mem_append.2 ⟨h.2, fun _ => isDigit_of_mem_zeros⟩⟩

/-- Zeros may stand before a number. -/
theorem IsNumber.zeros_append (h : IsNumber lexeme) (n : ℕ) :
    IsNumber (List.replicate n '0' ++ lexeme) := by
  cases h with
  | whole digits => exact .whole (digits.zeros_append n)
  | fraction digits more =>
    rw [← List.append_assoc]
    exact .fraction (digits.zeros_append n) more

/-- Zeros may stand at the end of the fraction of a number. -/
theorem IsNumber.append_zeros (h : IsNumber lexeme) (point : '.' ∈ lexeme) (n : ℕ) :
    IsNumber (lexeme ++ List.replicate n '0') := by
  cases h with
  | whole digits => exact absurd point digits.point_notMem
  | fraction digits more =>
    rw [List.append_assoc, List.cons_append]
    exact .fraction digits (more.append_zeros n)

/-- A whole number may have a fraction of zeros. -/
theorem IsNumber.append_point (h : IsNumber lexeme) (point : '.' ∉ lexeme) (n : ℕ) :
    IsNumber (lexeme ++ '.' :: List.replicate (n + 1) '0') := by
  cases h with
  | whole digits => exact .fraction digits ⟨nofun, fun _ => isDigit_of_mem_zeros⟩
  | fraction digits more => exact absurd (by simp) point

end

end Terminal

namespace Binary64

/-- **Literals of any length are rounded correctly**: to the number nearest to the rational that
they denote, of two equally near ones the one with the even significand, and to infinity just from
`2 ^ 1024 - 2 ^ 970` on.  So a greater decimal is not read as a smaller number, and zeros in front
or at the end of the fraction do not matter. -/
theorem ofLiteral_correctlyRounded {lexeme : List Char} (h : Terminal.IsNumber lexeme) :
    (∀ x, ofLiteral lexeme = x ↔ RoundsTo (decimalValue lexeme) x) ∧
      (ofLiteral lexeme = .infinity false ↔ 2 ^ 1024 - 2 ^ 970 ≤ decimalValue lexeme) ∧
      (∀ other, Terminal.IsNumber other → decimalValue lexeme ≤ decimalValue other →
        (ofLiteral lexeme).lessOrEqual (ofLiteral other) = true) ∧
      ∀ n,
        (Terminal.IsNumber (List.replicate n '0' ++ lexeme) ∧
          ofLiteral (List.replicate n '0' ++ lexeme) = ofLiteral lexeme) ∧
        ('.' ∈ lexeme → Terminal.IsNumber (lexeme ++ List.replicate n '0') ∧
          ofLiteral (lexeme ++ List.replicate n '0') = ofLiteral lexeme) ∧
        ('.' ∉ lexeme → Terminal.IsNumber (lexeme ++ '.' :: List.replicate (n + 1) '0') ∧
          ofLiteral (lexeme ++ '.' :: List.replicate (n + 1) '0') = ofLiteral lexeme) := by
  have rounds := roundsTo_ofLiteral lexeme
  have nonneg := decimalValue_nonneg lexeme
  refine ⟨fun x => ⟨fun eq => eq ▸ rounds, rounds.unique nonneg⟩, ?_, ?_, fun n => ⟨?_, ?_, ?_⟩⟩
  · constructor
    · intro eq
      rw [eq] at rounds
      cases rounds with
      | infinity out => exact out
    · exact fun out => rounds.unique nonneg (.infinity out)
  · exact fun other _ le => rounds.lessOrEqual (roundsTo_ofLiteral other) nonneg le
  · exact ⟨h.zeros_append n, ofLiteral_congr (decimalValue_zeros_append n lexeme)⟩
  · exact fun point =>
      ⟨h.append_zeros point n, ofLiteral_congr (decimalValue_append_zeros point n)⟩
  · exact fun point =>
      ⟨h.append_point point n, ofLiteral_congr (decimalValue_append_point point (n + 1))⟩

/-- `9007199254740993` is `2 ^ 53 + 1` and lies in the middle between two numbers; it is rounded
to the even one, `2 ^ 53`. -/
theorem ofLiteral_correctlyRounded_tie :
    Terminal.IsNumber "9007199254740993".toList ∧
      ofLiteral "9007199254740993".toList = ofInt 9007199254740992 ∧
      RoundsTo (decimalValue "9007199254740993".toList) (ofInt 9007199254740992) := by
  have digits : "9007199254740993".toList.all Char.isDigit = true := by decide +kernel
  have number : Terminal.IsNumber "9007199254740993".toList :=
    .whole ⟨by decide +kernel, List.all_eq_true.1 digits⟩
  have rounded : ofLiteral "9007199254740993".toList = ofInt 9007199254740992 := by
    decide +kernel
  exact ⟨number, rounded, ((ofLiteral_correctlyRounded number).1 _).1 rounded⟩

end Binary64

end SmallImp
