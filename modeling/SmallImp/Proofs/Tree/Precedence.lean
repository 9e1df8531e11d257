/-
# Precedence

Which trees of expressions can be written down without further parentheses is said by a table: for
each operator its level, and the loosest levels at which its operands stand without parentheses
(`BinaryOperator.leftLevel`, `rightLevel`, `UnaryOperator.level`).  An expression is grouped if its
operands keep to the table at every node (`Expr.Grouped`).

It is written with the tokens at its leaves from the left to the right, and with two parentheses
around what is in parentheses (`Expr.yield`).
-/
import SmallImp.Operator
import SmallImp.Proofs.Grammar.Levels
import SmallImp.Proofs.Token.Lexemes
import SmallImp.Proofs.Tree.Erasure

namespace SmallImp

/-! ## The table -/

namespace BinaryOperator

/-- The level of an operator between two operands. -/
def level : BinaryOperator → Level
  | and | or => .logic
  | equal | notEqual => .equality
  | less | greater | lessOrEqual | greaterOrEqual => .relation
  | power => .power
  | add | subtract => .sum
  | multiply | divide | floorDivide | remainder => .product

/-- The loosest level at which a left operand stands without parentheses. -/
def leftLevel : BinaryOperator → Level
  | and | or => .negation
  | equal | notEqual => .relation
  | less | greater | lessOrEqual | greaterOrEqual => .power
  | power => .sum
  | add | subtract => .sum
  | multiply | divide | floorDivide | remainder => .product

/-- The loosest level at which a right operand stands without parentheses. -/
def rightLevel : BinaryOperator → Level
  | and | or => .negation
  | equal | notEqual => .relation
  | less | greater | lessOrEqual | greaterOrEqual => .power
  | power => .power
  | add | subtract => .product
  | multiply | divide | floorDivide | remainder => .sign

theorem isBinary_level (operator : BinaryOperator) : operator.level.isBinary = true := by
  cases operator <;> rfl

end BinaryOperator

/-- The level of an operator before its operand, which is also the loosest one at which the operand
stands without parentheses. -/
def UnaryOperator.level : UnaryOperator → Level
  | not => .negation
  | plus | minus => .sign

theorem UnaryOperator.fixity_level (operator : UnaryOperator) :
    operator.level.fixity = .leading := by
  cases operator <;> rfl

namespace Operator

/-- The operator between two operands that an operator of a tree is. -/
def binary? (operator : Operator) : Option BinaryOperator :=
  match operator.kind with
  | .binary => BinaryOperator.ofSymbol? operator.symbol
  | .unary => none

/-- The operator before an operand that an operator of a tree is. -/
def unary? (operator : Operator) : Option UnaryOperator :=
  match operator.kind with
  | .unary => UnaryOperator.ofSymbol? operator.symbol
  | .binary => none

end Operator

namespace Expr

/-- The level of the operator at the root; what has none is an atom. -/
def level : Expr → Level
  | .unary operator _ _ => (operator.unary?.map UnaryOperator.level).getD .atom
  | .binary _ operator _ _ => (operator.binary?.map BinaryOperator.level).getD .atom
  | .value .. | .identifier .. | .parenthesis .. | .unknown _ => .atom

/-- Whether an expression is of a level or of a tighter one. -/
def StandsAt (ℓ : Level) (e : Expr) : Prop := e.level.height ≤ ℓ.height

/-- Whether every operand in an expression stands at the level that the table asks for, where it
has no parentheses of its own. -/
def Grouped : Expr → Prop
  | .value .. | .identifier .. => True
  | .unary operator operand _ =>
    ∃ known ∈ operator.unary?, operand.StandsAt known.level ∧ operand.Grouped
  | .binary left operator right _ =>
    ∃ known ∈ operator.binary?, left.StandsAt known.leftLevel ∧ left.Grouped ∧
      right.StandsAt known.rightLevel ∧ right.Grouped
  | .parenthesis inner _ => inner.Grouped
  | .unknown _ => False

instance (ℓ : Level) (e : Expr) : Decidable (e.StandsAt ℓ) :=
  inferInstanceAs (Decidable (e.level.height ≤ ℓ.height))

instance decidableGrouped : (e : Expr) → Decidable e.Grouped
  | .value .. | .identifier .. => inferInstanceAs (Decidable True)
  | .unary operator operand _ =>
    have := decidableGrouped operand
    inferInstanceAs (Decidable (∃ known ∈ operator.unary?,
      operand.StandsAt known.level ∧ operand.Grouped))
  | .binary left operator right _ =>
    have := decidableGrouped left
    have := decidableGrouped right
    inferInstanceAs (Decidable (∃ known ∈ operator.binary?,
      left.StandsAt known.leftLevel ∧ left.Grouped ∧
        right.StandsAt known.rightLevel ∧ right.Grouped))
  | .parenthesis inner _ => decidableGrouped inner
  | .unknown _ => inferInstanceAs (Decidable False)

end Expr

/-! ## Yields -/

/-- The terminal of a symbol. -/
def Terminal.ofSymbol (symbol : String) : Terminal :=
  (symbols.lookup symbol.toList).getD (.foreign symbol)

/-- The terminal of a boolean. -/
def Terminal.ofBoolean (lexeme : String) : Terminal :=
  if lexeme = "true" then .trueWord
  else if lexeme = "false" then .falseWord
  else .foreign lexeme

/-- The terminal of a literal. -/
def Literal.terminal (literal : Literal) : Terminal :=
  match literal.type with
  | .number => .number
  | .boolean => .ofBoolean literal.lexeme

/-- The tokens at the leaves of an expression from the left to the right, with the two parentheses
around what they enclose.  A tree keeps no block of a parenthesis. -/
def Expr.yield : Expr → List Token
  | .value literal _ => [⟨literal.terminal, literal.lexeme, literal.block⟩]
  | .identifier name _ => [⟨.identifier, name.name, name.block⟩]
  | .unary operator operand _ =>
    ⟨.ofSymbol operator.symbol, operator.symbol, operator.block⟩ :: operand.yield
  | .binary left operator right _ =>
    left.yield ++ ⟨.ofSymbol operator.symbol, operator.symbol, operator.block⟩ :: right.yield
  | .parenthesis inner _ =>
    ⟨.leftParen, "(", .origin⟩ :: (inner.yield ++ [⟨.rightParen, ")", .origin⟩])
  | .unknown _ => []

/-- What the yield of a tree has of a token: all of it, but for the block of a parenthesis. -/
def Token.kept (token : Token) : Token :=
  if token.terminal = .leftParen ∨ token.terminal = .rightParen then token.erased else token

theorem Token.erased_kept (token : Token) : token.kept.erased = token.erased := by
  unfold kept
  split
  case isTrue paren =>
    have proper : token.terminal ≠ .separator := by rintro h; simp [h] at paren
    simp [erased, proper]
  case isFalse => rfl

theorem Token.kept_of {token : Token} (opens : token.terminal ≠ .leftParen)
    (closes : token.terminal ≠ .rightParen) : token.kept = token :=
  if_neg (not_or.2 ⟨opens, closes⟩)

/-! ## The operators of a level -/

section Tables
variable {ℓ : Level}

open Terminal

theorem Terminal.symbols_ofSymbol : ∀ p ∈ symbols, ofSymbol (String.ofList p.1) = p.2 := by
  decide +kernel

theorem Level.symbols_unary (leading : ℓ.fixity = .leading) :
    ∀ p ∈ symbols, ℓ.hasOperator p.2 = true →
      (UnaryOperator.ofSymbol? (String.ofList p.1)).map UnaryOperator.level = some ℓ := by
  cases ℓ <;> first | (cases leading; done) | decide +kernel

theorem Level.symbols_binary (binary : ℓ.isBinary = true) :
    ∀ p ∈ symbols, ℓ.hasOperator p.2 = true →
      (BinaryOperator.ofSymbol? (String.ofList p.1)).map BinaryOperator.level = some ℓ := by
  cases ℓ <;> first | (cases binary; done) | decide +kernel

theorem UnaryOperator.table_hasOperator :
    ∀ p ∈ table, p.2.level.hasOperator (ofSymbol p.1) = true := by
  decide +kernel

theorem BinaryOperator.table_hasOperator :
    ∀ p ∈ table, p.2.level.hasOperator (ofSymbol p.1) = true := by
  decide +kernel

end Tables

end SmallImp
