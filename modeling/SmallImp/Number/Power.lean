/-
# Powers

`power base exponent` on binary64 numbers.  The special cases come first, in this
order:

| base | exponent | result |
| --- | --- | --- |
| any | zero | `1` |
| not a number | other | not a number |
| `1` | not a number | `1` |
| other | not a number | not a number |
| magnitude `1` | infinite | `1` |
| other | infinite | infinite where the magnitude grows, else `0` |
| infinite | finite | infinite or zero, negative for an odd exponent |
| zero | negative | `+∞` |
| zero | positive | zero, negative for an odd exponent |
| negative | not an integer | `+∞` where the magnitude's power overflows, else not a number |
| negative | integer | the magnitude's power, negative for an odd exponent |

What is left is the power of a positive magnitude, `magnitudePower`.
-/
import SmallImp.Number.Arithmetic

namespace SmallImp
namespace Binary64

/-- Whether a number is a finite integer. -/
def isInteger : Binary64 → Bool
  | .finite _ rank => units rank % unitsPerOne == 0
  | _ => false

/-- Whether a number is an odd integer. -/
def isOddInteger : Binary64 → Bool
  | .finite _ rank => units rank % unitsPerOne == 0 && units rank / unitsPerOne % 2 == 1
  | _ => false

/-- The binary exponent of a positive finite magnitude of `u` units: `2 ^ n ≤ u 2 ^ -1074`
for no greater `n`. -/
def floorLog2 (u : Nat) : Int := (u.log2 : Int) - 1074

/-- A bound that settles clear overflow: with `2 ^ n ≤ base` and `m ≤ exponent` for natural
`n` and `m`, or `base < 2 ^ -n` and `exponent ≤ -m`, the power is at least `2 ^ (n m)`. -/
def clearlyOverflows (base exponent : Binary64) : Bool :=
  match base, exponent with
  | .finite _ x, .finite t y =>
    let m := units y / unitsPerOne
    let n := floorLog2 (units x)
    x.val != 0 && (if t then 1024 ≤ (-n - 1) * m else 1024 ≤ n * m)
  | _, _ => false

/-- The same number as a machine number. -/
def toFloat (a : Binary64) : Float := Float.ofBits (UInt64.ofNat a.toBits)

/-- The number that a machine number holds. -/
def ofFloat (x : Float) : Binary64 := ofBits x.toBits.toNat

/-- The power of a positive finite base by a finite exponent.  Overflow that the binary
exponents settle is infinite; all else is the power of the mathematical library. -/
def magnitudePower (base exponent : Binary64) : Binary64 :=
  if clearlyOverflows base exponent then .infinity false
  else ofFloat (Float.pow base.toFloat exponent.toFloat)

/-- The number with a negative sign where the flag asks for one. -/
def negateIf (negative : Bool) (a : Binary64) : Binary64 := if negative then neg a else a

/-- The number `base` raised to `exponent`. -/
def power (base exponent : Binary64) : Binary64 :=
  match base, exponent with
  | _, .finite _ ⟨0, _⟩ => one
  | .nan, _ => .nan
  | _, .nan => if base = one then one else .nan
  | _, .infinity negative =>
    if base.abs = one then one
    else if less base.abs one = negative then .infinity false
    else zero false
  | .infinity s, .finite t _ =>
    let negative := s && exponent.isOddInteger
    if t then zero negative else .infinity negative
  | .finite s ⟨0, _⟩, .finite t _ =>
    if t then .infinity false else zero (s && exponent.isOddInteger)
  | .finite s _, .finite _ _ =>
    if s && !exponent.isInteger then
      if magnitudePower base.abs exponent = .infinity false then .infinity false else .nan
    else if base.abs = one then negateIf (s && exponent.isOddInteger) one
    else negateIf (s && exponent.isOddInteger) (magnitudePower base.abs exponent)

end Binary64
end SmallImp
