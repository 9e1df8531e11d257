/-
# Operators

The operators of expressions, each with its symbol, the type of operands that it asks for,
and what it computes.

| symbol | operands | computes |
| --- | --- | --- |
| `+ - *` | numbers | sum, difference, product |
| `/` | numbers | quotient |
| `//` | numbers | floor of the quotient |
| `%` | numbers | remainder with the sign of the dividend |
| `^` | numbers | power |
| `< > <= >=` | numbers | order |
| `== !=` | two of one type | equality |
| `&& \|\|` | booleans | both, either |
| `!` | boolean | negation |
| prefix `+ -` | number | itself, its negative |
-/
import SmallImp.Value
import SmallImp.Number.Power

namespace SmallImp

/-- The operators with two operands. -/
inductive BinaryOperator where
  | add | subtract | multiply | power | divide | floorDivide | remainder
  | less | greater | lessOrEqual | greaterOrEqual
  | equal | notEqual
  | and | or
  deriving DecidableEq

namespace BinaryOperator

/-- The operators by their symbols. -/
def table : List (String × BinaryOperator) :=
  [("+", add), ("-", subtract), ("*", multiply), ("^", power), ("/", divide),
   ("//", floorDivide), ("%", remainder), ("<", less), (">", greater), ("<=", lessOrEqual),
   (">=", greaterOrEqual), ("==", equal), ("!=", notEqual), ("&&", and), ("||", or)]

/-- The operator with a symbol. -/
def ofSymbol? (symbol : String) : Option BinaryOperator := table.lookup symbol

/-- The type that both operands must have; with none they only have to share one. -/
def operandType : BinaryOperator → Option Ty
  | equal | notEqual => none
  | and | or => some .boolean
  | _ => some .number

/-- Whether the second operand must not be zero. -/
def dividing : BinaryOperator → Bool
  | divide | floorDivide | remainder => true
  | _ => false

/-- What an operator computes from two operands of its type.  Of `&&` and `||` the result is that
operand which settles it. -/
def apply : BinaryOperator → Value → Value → Except ArithmeticFault Value
  | add, a, b => .ok (.number (a.asNumber.add b.asNumber))
  | subtract, a, b => .ok (.number (a.asNumber.sub b.asNumber))
  | multiply, a, b => .ok (.number (a.asNumber.mul b.asNumber))
  | power, a, b => .ok (.number (a.asNumber.power b.asNumber))
  | divide, a, b => (a.asNumber.div b.asNumber).map .number
  | floorDivide, a, b => (a.asNumber.floorDivide b.asNumber).map .number
  | remainder, a, b => (a.asNumber.remainder b.asNumber).map .number
  | less, a, b => .ok (.boolean (a.asNumber.less b.asNumber))
  | greater, a, b => .ok (.boolean (b.asNumber.less a.asNumber))
  | lessOrEqual, a, b => .ok (.boolean (a.asNumber.lessOrEqual b.asNumber))
  | greaterOrEqual, a, b => .ok (.boolean (b.asNumber.lessOrEqual a.asNumber))
  | equal, a, b => .ok (.boolean (a.equal b))
  | notEqual, a, b => .ok (.boolean (!a.equal b))
  | and, a, b => .ok (if a.asBoolean then b else a)
  | or, a, b => .ok (if a.asBoolean then a else b)

end BinaryOperator

/-- The operators with one operand. -/
inductive UnaryOperator where
  | not | plus | minus
  deriving DecidableEq

namespace UnaryOperator

/-- The operators by their symbols. -/
def table : List (String × UnaryOperator) := [("!", not), ("+", plus), ("-", minus)]

/-- The operator with a symbol. -/
def ofSymbol? (symbol : String) : Option UnaryOperator := table.lookup symbol

/-- The type that the operand must have. -/
def operandType : UnaryOperator → Ty
  | not => .boolean
  | plus | minus => .number

/-- What an operator computes from an operand of its type.  A boolean has no negative zero. -/
def apply : UnaryOperator → Value → Value
  | not, a => .boolean (!a.asBoolean)
  | plus, a => .number a.asNumber
  | minus, .number a => .number a.neg
  | minus, .boolean a => .number ((Binary64.zero false).sub (Value.boolean a).asNumber)

end UnaryOperator

end SmallImp
