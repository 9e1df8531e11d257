/-
# Values

A program computes with binary64 numbers and booleans.
-/
import SmallImp.Number.Arithmetic
import SmallImp.Number.Layout
import SmallImp.Number.Literal

namespace SmallImp

/-- The types of values. -/
inductive Ty where
  | number
  | boolean
  deriving DecidableEq, Repr

/-- The word for a type in a program. -/
def Ty.name : Ty → String
  | .number => "num"
  | .boolean => "bool"

/-- A value of either type. -/
inductive Value where
  | number (value : Binary64)
  | boolean (value : Bool)
  deriving DecidableEq

namespace Value

/-- The type of a value. -/
def ty : Value → Ty
  | .number _ => .number
  | .boolean _ => .boolean

/-- The text in which a value is printed. -/
def text : Value → String
  | .number value => String.ofList (Layout.printed.number value)
  | .boolean value => if value then "true" else "false"

/-- The value of a literal: any boolean lexeme but `true` is false. -/
def ofLiteral : Ty → String → Value
  | .number, lexeme => .number (Binary64.ofLiteral lexeme.toList)
  | .boolean, lexeme => .boolean (lexeme == "true")

/-- A value read as a number: a boolean counts one or zero. -/
def asNumber : Value → Binary64
  | .number value => value
  | .boolean value => if value then Binary64.one else Binary64.zero false

/-- A value read as a boolean: a number counts as whether it is not zero. -/
def asBoolean : Value → Bool
  | .number value => !value.isZero
  | .boolean value => value

/-- Whether two values are equal as numbers. -/
def equal (a b : Value) : Bool := a.asNumber.equal b.asNumber

end Value

end SmallImp
