/-
# How phrases are spelled

The tokens that a phrase is written with, as relations between the two: `Level.Spells` for the
expressions of each level, and `Spells` for declarations, commands, bodies and lists of items.
The relations follow the grammar, with a phrase beside each derivation.  Like the grammar they
say nothing of which `if` an `else` belongs to.

That is said apart: a phrase is settled if no command before an `else` could take the `else` for
itself.  A command is open if it could take an `else` that stands after it.
-/
import SmallImp.Phrase.Parser
import SmallImp.Proofs.Grammar.Levels

namespace SmallImp

/-! ## Expressions -/

namespace Level

/-- The level of the left operands of a level's operators. -/
def leftOperand (ℓ : Level) : Level := if ℓ.fixity = .left then ℓ else ℓ.next

/-- The level of the right operands of a level's operators. -/
def rightOperand (ℓ : Level) : Level := if ℓ.fixity = .right then ℓ else ℓ.next

open Phrase in
/-- The expressions of each level with their tokens. -/
inductive Spells : Level → Expr → List Token → Prop
  | number {token : Token} : token.terminal = .number →
      Spells atom (literalExpr .number token) [token]
  | boolean {token : Token} : token.terminal = .trueWord ∨ token.terminal = .falseWord →
      Spells atom (literalExpr .boolean token) [token]
  | name {token : Token} : token.terminal = .identifier →
      Spells atom (.identifier (identifierOf token) token.block) [token]
  | parenthesis {opening closing : Token} {inner : Expr} {tokens : List Token} :
      opening.terminal = .leftParen → Spells logic inner tokens →
      closing.terminal = .rightParen →
      Spells atom (.parenthesis inner (opening.block.through closing.block))
        (opening :: (tokens ++ [closing]))
  /-- What is spelled at the next level is spelled at this one. -/
  | tighter {ℓ : Level} {e : Expr} {tokens : List Token} : ℓ.fixity ≠ .closed →
      Spells ℓ.next e tokens → Spells ℓ e tokens
  | leading {ℓ : Level} {operator : Token} {operand : Expr} {tokens : List Token} :
      ℓ.fixity = .leading → ℓ.hasOperator operator.terminal = true → Spells ℓ operand tokens →
      Spells ℓ (unaryExpr operator operand) (operator :: tokens)
  | binary {ℓ : Level} {left right : Expr} {operator : Token} {before after : List Token} :
      ℓ.isBinary = true → Spells ℓ.leftOperand left before →
      ℓ.hasOperator operator.terminal = true → Spells ℓ.rightOperand right after →
      Spells ℓ (binaryExpr left operator right) (before ++ operator :: after)

end Level

namespace Phrase

/-! ## Declarations -/

/-- The type that a token names. -/
inductive NamesType : TypeName → Token → Prop
  | number {token : Token} : token.terminal = .numWord → NamesType ⟨.number, token.block⟩ token
  | boolean {token : Token} : token.terminal = .boolWord → NamesType ⟨.boolean, token.block⟩ token

/-- The name and the type of a declaration with their tokens, in the two orders. -/
inductive SpellsFields : Bool → Identifier → TypeName → List Token → Prop
  | nameFirst {name colon type : Token} {written : TypeName} : name.terminal = .identifier →
      colon.terminal = .colon → NamesType written type →
      SpellsFields true (identifierOf name) written [name, colon, type]
  | typeFirst {name colon type : Token} {written : TypeName} : colon.terminal = .colon →
      NamesType written type → name.terminal = .identifier →
      SpellsFields false (identifierOf name) written [colon, type, name]

/-- A declaration with its tokens. -/
inductive Declaration.Spells : Declaration → List Token → Prop
  | mk {word assign : Token} {nameFirst : Bool} {name : Identifier} {written : TypeName}
      {value : Expr} {head tokens : List Token} :
      startsDeclaration word.terminal = true → SpellsFields nameFirst name written head →
      assign.terminal = .assign → Level.logic.Spells value tokens →
      Spells ⟨word.block, word.terminal == .constWord, nameFirst, name, written, value⟩
        (word :: (head ++ assign :: tokens))

/-- The declaration at the head of a `for` loop, if there is one. -/
inductive SpellsInitial : Option Declaration → List Token → Prop
  | none : SpellsInitial none []
  | some {declaration : Declaration} {tokens : List Token} :
      declaration.Spells tokens → SpellsInitial (some declaration) tokens

/-! ## Commands -/

/-- A word that may be left out. -/
inductive SpellsWord (terminal : Terminal) : Option Block → List Token → Prop
  | none : SpellsWord terminal none []
  | some {token : Token} : token.terminal = terminal →
      SpellsWord terminal (some token.block) [token]

mutual

/-- A command with its tokens. -/
inductive Command.Spells : Command → List Token → Prop
  | assign {name assign : Token} {value : Expr} {tokens : List Token} :
      name.terminal = .identifier → assign.terminal = .assign →
      Level.logic.Spells value tokens →
      Command.Spells (.assign (identifierOf name) value) (name :: assign :: tokens)
  | print {word : Token} {value : Expr} {tokens : List Token} :
      word.terminal = .printWord → Level.logic.Spells value tokens →
      Command.Spells (.print word.block value) (word :: tokens)
  | ifThen {word : Token} {condition : Expr} {thenAt : Option Block} {body : Body}
      {test optional inner : List Token} :
      word.terminal = .ifWord → Level.logic.Spells condition test →
      SpellsWord .thenWord thenAt optional → Body.Spells body inner →
      Command.Spells (.ifThen word.block condition thenAt body)
        (word :: (test ++ (optional ++ inner)))
  | ifElse {word other : Token} {condition : Expr} {thenAt : Option Block} {body otherwise : Body}
      {test optional inner outer : List Token} :
      word.terminal = .ifWord → Level.logic.Spells condition test →
      SpellsWord .thenWord thenAt optional → Body.Spells body inner →
      other.terminal = .elseWord → Body.Spells otherwise outer →
      Command.Spells (.ifElse word.block condition thenAt body other.block otherwise)
        (word :: (test ++ (optional ++ (inner ++ other :: outer))))
  | whileLoop {word : Token} {condition : Expr} {doAt : Option Block} {body : Body}
      {test optional inner : List Token} :
      word.terminal = .whileWord → Level.logic.Spells condition test →
      SpellsWord .doWord doAt optional → Body.Spells body inner →
      Command.Spells (.whileLoop word.block condition doAt body)
        (word :: (test ++ (optional ++ inner)))
  | forLoop {word opening comma comma' closing : Token} {initial : Option Declaration}
      {condition : Expr} {step : OptionalCommand} {doAt : Option Block} {body : Body}
      {start test next optional inner : List Token} :
      word.terminal = .forWord → opening.terminal = .leftParen → SpellsInitial initial start →
      comma.terminal = .comma → Level.logic.Spells condition test → comma'.terminal = .comma →
      OptionalCommand.Spells step next → closing.terminal = .rightParen →
      SpellsWord .doWord doAt optional → Body.Spells body inner →
      Command.Spells (.forLoop word.block initial condition step closing.block doAt body)
        (word :: opening :: (start ++ comma :: (test ++ comma' :: (next ++ closing ::
          (optional ++ inner)))))

/-- A command that may be left out, with its tokens. -/
inductive OptionalCommand.Spells : OptionalCommand → List Token → Prop
  | none : OptionalCommand.Spells .none []
  | some {command : Command} {tokens : List Token} : Command.Spells command tokens →
      OptionalCommand.Spells (.some command) tokens

/-- A body with its tokens. -/
inductive Body.Spells : Body → List Token → Prop
  | bare {command : OptionalCommand} {tokens : List Token} :
      OptionalCommand.Spells command tokens → Body.Spells (.bare command) tokens
  | braced {opening closing : Token} {items : Items} {tokens : List Token} :
      opening.terminal = .leftBrace → Items.Spells items tokens →
      closing.terminal = .rightBrace →
      Body.Spells (.braced opening.block items closing.block) (opening :: (tokens ++ [closing]))

/-- A list of items with its tokens. -/
inductive Items.Spells : Items → List Token → Prop
  | nil : Items.Spells .nil []
  | declaration {first : Declaration} {rest : Items} {tokens more : List Token} :
      first.Spells tokens → Items.SpellsRest rest more →
      Items.Spells (.declaration first rest) (tokens ++ more)
  | command {first : Command} {rest : Items} {tokens more : List Token} :
      Command.Spells first tokens → Items.SpellsRest rest more →
      Items.Spells (.command first rest) (tokens ++ more)

/-- The items after the first one, with a separator in front where there are any. -/
inductive Items.SpellsRest : Items → List Token → Prop
  | nil : Items.SpellsRest .nil []
  | items {separator : Token} {items : Items} {tokens : List Token} :
      separator.terminal = .separator → items ≠ .nil → Items.Spells items tokens →
      Items.SpellsRest items (separator :: tokens)

end

/-! ## Which `if` an `else` belongs to -/

mutual

/-- Whether an `else` after a command could belong to an `if` of it. -/
def Command.isOpen : Command → Bool
  | .assign .. | .print .. => false
  | .ifThen .. => true
  | .ifElse _ _ _ _ _ otherwise => otherwise.isOpen
  | .whileLoop _ _ _ body => body.isOpen
  | .forLoop _ _ _ _ _ _ body => body.isOpen

/-- Whether an `else` after what may be a command could belong to an `if` of it. -/
def OptionalCommand.isOpen : OptionalCommand → Bool
  | .none => false
  | .some command => command.isOpen

/-- Whether an `else` after a body could belong to an `if` of it: braces close it off. -/
def Body.isOpen : Body → Bool
  | .bare command => command.isOpen
  | .braced .. => false

end

mutual

/-- Whether each `else` in a command belongs to the nearest `if` that it can belong to. -/
def Command.Settled : Command → Prop
  | .assign .. | .print .. => True
  | .ifThen _ _ _ body => body.Settled
  | .ifElse _ _ _ body _ otherwise => body.isOpen = false ∧ body.Settled ∧ otherwise.Settled
  | .whileLoop _ _ _ body => body.Settled
  | .forLoop _ _ _ step _ _ body => step.Settled ∧ body.Settled

/-- Whether each `else` in what may be a command belongs to the nearest `if`. -/
def OptionalCommand.Settled : OptionalCommand → Prop
  | .none => True
  | .some command => command.Settled

/-- Whether each `else` in a body belongs to the nearest `if`. -/
def Body.Settled : Body → Prop
  | .bare command => command.Settled
  | .braced _ items _ => items.Settled

/-- Whether each `else` in a list of items belongs to the nearest `if`. -/
def Items.Settled : Items → Prop
  | .nil => True
  | .declaration _ rest => rest.Settled
  | .command first rest => first.Settled ∧ rest.Settled

end

end Phrase
end SmallImp
