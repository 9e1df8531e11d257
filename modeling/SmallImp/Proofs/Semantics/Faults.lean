/-
# Where an operator has no result

An operator whose second operand must not be zero is never applied to a zero.  On all other
numbers every operator has a result but one: there is no remainder of an infinity, unless the
divisor is not a number (`BinaryOperator.apply_error_iff`, `Suits.apply_ok_iff`).  What is out of range is infinite, and
what is undefined is not a number.
-/
import SmallImp.Proofs.Semantics.Rules

namespace SmallImp

namespace Binary64

variable {a b : Binary64} {fault : ArithmeticFault}

theorem div_of_not_isZero (nonzero : b.isZero = false) : a.div b = .ok (a.quotient b) := by
  rw [div, nonzero]
  rfl

theorem floorDivide_of_not_isZero (nonzero : b.isZero = false) :
    a.floorDivide b = .ok (a.quotient b).floor := by
  rw [floorDivide, div_of_not_isZero nonzero]
  rfl

/-- The remainders that there are none of. -/
theorem remainder_error_iff (nonzero : b.isZero = false) :
    a.remainder b = .error fault ↔
      fault = .remainderUndefined ∧ (∃ negative, a = .infinity negative) ∧ b ≠ .nan := by
  cases a with
  | nan => simp [remainder]
  | infinity negative => cases b <;> simp [remainder, eq_comm]
  | finite negative rank =>
    cases b with
    | nan | infinity => simp [remainder]
    | finite negative' rank' =>
      have : rank'.val ≠ 0 := by simpa [isZero] using nonzero
      simp [remainder, this]

end Binary64

/-- **No operator but the remainder is without a result**, and it only for an infinity and a
divisor that is a number. -/
theorem BinaryOperator.apply_error_iff {known : BinaryOperator} {a b : Value}
    {fault : ArithmeticFault} (nonzero : known.dividing = true → b.asNumber.isZero = false) :
    known.apply a b = .error fault ↔
      known = .remainder ∧ fault = .remainderUndefined ∧
        (∃ negative, a.asNumber = .infinity negative) ∧ b.asNumber ≠ .nan := by
  cases known with
  | divide => simp [apply, Binary64.div_of_not_isZero (nonzero rfl), Except.map]
  | floorDivide => simp [apply, Binary64.floorDivide_of_not_isZero (nonzero rfl), Except.map]
  | remainder =>
    have faults := @Binary64.remainder_error_iff a.asNumber b.asNumber fault (nonzero rfl)
    cases result : a.asNumber.remainder b.asNumber <;>
      simp_all [apply, Except.map]
  | _ => simp [apply]

/-- Whether two values have no remainder for all that the second is not zero: the first is infinite,
and the second is a number. -/
def NoRemainder (a b : Value) : Prop :=
  ∃ negative divisor, a = .number (.infinity negative) ∧ b = .number divisor ∧
    divisor ≠ .nan ∧ divisor.isZero = false

section
variable {known : BinaryOperator} {a b : Value}

/-- An operator on values of its types faults on an infinity and a number alone. -/
theorem Suits.apply_error_iff (suits : Suits known a b)
    (nonzero : known.dividing = true → b.asNumber.isZero = false) {fault : ArithmeticFault} :
    known.apply a b = .error fault ↔
      known = .remainder ∧ fault = .remainderUndefined ∧ NoRemainder a b := by
  rw [BinaryOperator.apply_error_iff nonzero]
  constructor
  · rintro ⟨rfl, rfl, ⟨negative, infinite⟩, number⟩
    obtain ⟨typeA, typeB⟩ : a.ty = .number ∧ b.ty = .number := suits
    cases a with
    | boolean => cases typeA
    | number dividend =>
      cases b with
      | boolean => cases typeB
      | number divisor =>
        obtain rfl : dividend = .infinity negative := infinite
        exact ⟨rfl, rfl, negative, divisor, rfl, rfl, number, nonzero rfl⟩
  · rintro ⟨rfl, rfl, negative, divisor, rfl, rfl, number, -⟩
    exact ⟨rfl, rfl, ⟨negative, rfl⟩, number⟩

/-- **An operator on values of its types has a result**, but for the remainder of an infinity. -/
theorem Suits.apply_ok_iff (suits : Suits known a b)
    (nonzero : known.dividing = true → b.asNumber.isZero = false) :
    (∃ value, known.apply a b = .ok value) ↔ ¬ (known = .remainder ∧ NoRemainder a b) := by
  have faults (fault : ArithmeticFault) := @Suits.apply_error_iff known a b suits nonzero fault
  cases applied : known.apply a b with
  | error fault =>
    obtain ⟨remainder, -, undefined⟩ := (faults fault).1 applied
    simp [remainder, undefined]
  | ok value =>
    refine ⟨fun _ ⟨remainder, undefined⟩ => ?_, fun _ => ⟨value, rfl⟩⟩
    have := (faults .remainderUndefined).2 ⟨remainder, rfl, undefined⟩
    rw [applied] at this
    cases this

end

/-- The remainder has one symbol. -/
theorem BinaryOperator.ofSymbol?_eq_remainder {symbol : String} :
    ofSymbol? symbol = some .remainder ↔ symbol = "%" := by
  constructor
  · intro found
    obtain ⟨before, after, split, -⟩ := List.lookup_eq_some_iff.1 found
    have mem : (symbol, BinaryOperator.remainder) ∈ table := by rw [split]; simp
    exact (by decide : ∀ p ∈ table, p.2 = .remainder → p.1 = "%") _ mem rfl
  · rintro rfl
    decide

end SmallImp
