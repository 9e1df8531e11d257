/-
# Number literals

A literal is digits, or digits, a point and digits.  It stands for the number nearest
to its decimal value, however long it is.
-/
import SmallImp.Number.Binary64

namespace SmallImp
namespace Binary64

/-- Reads on in a decimal numeral of value `value`: each digit moves it one place up. -/
def numeral (value : Nat) : List Char → Nat
  | [] => value
  | c :: rest => numeral (10 * value + (c.toNat - '0'.toNat)) rest

/-- The number nearest to the decimal value of a literal. -/
def ofLiteral (lexeme : List Char) : Binary64 :=
  let whole := lexeme.takeWhile (· != '.')
  let fraction := (lexeme.dropWhile (· != '.')).drop 1
  ofDecimal (numeral 0 (whole ++ fraction)) fraction.length

end Binary64
end SmallImp
