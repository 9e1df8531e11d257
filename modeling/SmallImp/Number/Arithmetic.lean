/-
# Arithmetic on binary64 numbers

Each operation is its exact result, a quotient of whole numbers of units, rounded
once.  Infinities and not-a-numbers follow the usual rules; dividing by zero and
taking a remainder where none is defined are faults that the caller sees.
-/
import SmallImp.Number.Binary64

namespace SmallImp

/-- Why an arithmetic operation has no result. -/
inductive ArithmeticFault where
  /-- A quotient by zero. -/
  | zeroDivisor
  /-- A remainder of an infinite dividend, or by zero. -/
  | remainderUndefined
  deriving DecidableEq

namespace Binary64

/-- The number with the other sign. -/
def neg : Binary64 → Binary64
  | .nan => .nan
  | .infinity negative => .infinity (!negative)
  | .finite negative rank => .finite (!negative) rank

/-- The number without its sign. -/
def abs : Binary64 → Binary64
  | .nan => .nan
  | .infinity _ => .infinity false
  | .finite _ rank => .finite false rank

/-- The sum.  Two finite numbers that cancel give the positive zero. -/
def add : Binary64 → Binary64 → Binary64
  | .nan, _ => .nan
  | _, .nan => .nan
  | .infinity s, .infinity t => if s = t then .infinity s else .nan
  | .infinity s, .finite _ _ => .infinity s
  | .finite _ _, .infinity t => .infinity t
  | .finite s x, .finite t y =>
    let a := units x
    let b := units y
    if s = t then ofRatio s (a + b) 1
    else if a = b then zero false
    else if b < a then ofRatio s (a - b) 1
    else ofRatio t (b - a) 1

/-- The difference. -/
def sub (a b : Binary64) : Binary64 := add a (neg b)

/-- The product. -/
def mul : Binary64 → Binary64 → Binary64
  | .nan, _ => .nan
  | _, .nan => .nan
  | .infinity s, .infinity t => .infinity (s ^^ t)
  | .infinity s, .finite t y => if y.val = 0 then .nan else .infinity (s ^^ t)
  | .finite s x, .infinity t => if x.val = 0 then .nan else .infinity (s ^^ t)
  | .finite s x, .finite t y => ofRatio (s ^^ t) (units x * units y) unitsPerOne

/-- The quotient by a number that is not zero. -/
def quotient : Binary64 → Binary64 → Binary64
  | .nan, _ => .nan
  | _, .nan => .nan
  | .infinity _, .infinity _ => .nan
  | .infinity s, .finite t _ => .infinity (s ^^ t)
  | .finite s _, .infinity t => zero (s ^^ t)
  | .finite s x, .finite t y => ofRatio (s ^^ t) (units x * unitsPerOne) (units y)

/-- The quotient; a zero divisor is a fault whatever the dividend. -/
def div (a b : Binary64) : Except ArithmeticFault Binary64 :=
  if b.isZero then .error .zeroDivisor else .ok (quotient a b)

/-- The greatest integer not above a finite number, never a negative zero. -/
def floor : Binary64 → Binary64
  | .finite negative rank =>
    let whole := units rank / unitsPerOne
    if negative then ofInt (-(if units rank % unitsPerOne = 0 then whole else whole + 1 : Nat))
    else ofInt whole
  | other => other

/-- The floor of the quotient, which stays as it is when it is not finite. -/
def floorDivide (a b : Binary64) : Except ArithmeticFault Binary64 :=
  (div a b).map floor

/-- The exact remainder of the division that drops the fraction of the quotient; it
has the sign of the dividend. -/
def remainder : Binary64 → Binary64 → Except ArithmeticFault Binary64
  | .nan, _ => .ok .nan
  | _, .nan => .ok .nan
  | .infinity _, _ => .error .remainderUndefined
  | .finite s x, .infinity _ => .ok (.finite s x)
  | .finite s x, .finite _ y =>
    if y.val = 0 then .error .remainderUndefined
    else .ok (ofRatio s (units x % units y) 1)

/-- Whether two numbers have one place in the order; a not-a-number has none. -/
def equal (a b : Binary64) : Bool :=
  match a.order?, b.order? with
  | some x, some y => x == y
  | _, _ => false

/-- Whether the first number lies below the second. -/
def less (a b : Binary64) : Bool :=
  match a.order?, b.order? with
  | some x, some y => x < y
  | _, _ => false

/-- Whether the first number lies below the second or at its place. -/
def lessOrEqual (a b : Binary64) : Bool :=
  match a.order?, b.order? with
  | some x, some y => x ≤ y
  | _, _ => false

end Binary64

end SmallImp
