/-
# Levels of expressions

Operators bind at levels, from the loosest to the tightest:

| level | operators | how |
| --- | --- | --- |
| `logic` | `&& \|\|` | once |
| `negation` | prefix `!` | repeated |
| `equality` | `== !=` | once |
| `relation` | `< > <= >=` | once |
| `power` | `^` | to the right |
| `sum` | `+ -` | to the left |
| `product` | `* / // %` | to the left |
| `sign` | prefix `+ -` | repeated |
| `atom` | literals, names, parentheses | |

The operands of a level stand at the next; a chain to the right goes on at its own level, and
so does a repeated prefix.
-/
import SmallImp.Token.Terminal

namespace SmallImp

/-- The levels of expressions, the loosest first. -/
inductive Level where
  | logic | negation | equality | relation | power | sum | product | sign | atom
  deriving DecidableEq, Repr

/-- How the operators of a level combine. -/
inductive Fixity where
  /-- Between two operands, with no chain. -/
  | once
  /-- Between two operands; a chain groups to the left. -/
  | left
  /-- Between two operands; a chain groups to the right. -/
  | right
  /-- Before an operand, any number of times. -/
  | leading
  /-- No operators. -/
  | closed
  deriving DecidableEq, Repr

namespace Level

/-- The next tighter level. -/
def next : Level → Level
  | logic => negation
  | negation => equality
  | equality => relation
  | relation => power
  | power => sum
  | sum => product
  | product => sign
  | sign => atom
  | atom => atom

/-- How the operators of a level combine. -/
def fixity : Level → Fixity
  | logic | equality | relation => .once
  | power => .right
  | sum | product => .left
  | negation | sign => .leading
  | atom => .closed

/-- Whether a terminal is an operator of a level. -/
def hasOperator : Level → Terminal → Bool
  | logic, .and | logic, .or => true
  | negation, .not => true
  | equality, .equal | equality, .notEqual => true
  | relation, .less | relation, .greater => true
  | relation, .lessOrEqual | relation, .greaterOrEqual => true
  | power, .caret => true
  | sum, .plus | sum, .minus => true
  | product, .star | product, .slash | product, .floorSlash | product, .percent => true
  | sign, .plus | sign, .minus => true
  | _, _ => false

end Level

end SmallImp
