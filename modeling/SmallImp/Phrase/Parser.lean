/-
# Reading phrases

The grammar of programs, over tokens whose separators are settled.  Square brackets enclose
what may be left out, and `|` separates choices.

```
program      ::= [items]
items        ::= item separator … separator item
item         ::= declaration | command
declaration  ::= (let | const) (name : type | : type name) = expression
command      ::= name = expression
               | print expression
               | if expression [then] body [else body]
               | while expression [do] body
               | for ( [declaration] , expression , [command] ) [do] body
body         ::= [command] | { [items] }
```

Expressions follow the levels of `Level`.  An `else` belongs to the nearest `if` that it can
belong to.  Every choice is settled by the next token, so a reader fails at the first token
that no program continues with, and gives back the tokens from there on.

The readers recurse on `fuel`, of which each call takes one.  Between two tokens there are at
most nine calls for the levels of an expression and four for a command in a body in a list, so
sixteen for each token are enough.
-/
import SmallImp.Phrase.Level
import SmallImp.Phrase.Basic

namespace SmallImp
namespace Phrase

/-- What a reader gives: a phrase with the tokens after it, or the tokens at which it failed. -/
inductive Reading (α : Type) where
  | read (phrase : α) (rest : List Token)
  | failed (rest : List Token)

namespace Reading

/-- Goes on after a phrase; a failure stays. -/
@[inline]
def andThen {α β : Type} (reading : Reading α) (next : α → List Token → Reading β) : Reading β :=
  match reading with
  | read phrase rest => next phrase rest
  | failed rest => failed rest

/-- Makes one phrase of another. -/
@[inline]
def map {α β : Type} (make : α → β) (reading : Reading α) : Reading β :=
  reading.andThen fun phrase rest => read (make phrase) rest

@[simp]
theorem andThen_read {α β : Type} (phrase : α) (rest : List Token)
    (next : α → List Token → Reading β) : (read phrase rest).andThen next = next phrase rest := rfl

@[simp]
theorem andThen_failed {α β : Type} (rest : List Token) (next : α → List Token → Reading β) :
    (failed rest).andThen next = failed rest := rfl

@[simp]
theorem map_read {α β : Type} (make : α → β) (phrase : α) (rest : List Token) :
    (read phrase rest).map make = read (make phrase) rest := rfl

@[simp]
theorem map_failed {α β : Type} (make : α → β) (rest : List Token) :
    (failed rest : Reading α).map make = failed rest := rfl

end Reading

/-- The identifier that a token holds. -/
def identifierOf (token : Token) : Identifier := ⟨token.text, token.block⟩

/-- The operator of a kind that a token holds. -/
def operatorOf (kind : OperatorKind) (token : Token) : Operator :=
  ⟨kind, token.text, token.block⟩

/-- The expression between two operands. -/
def binaryExpr (left : Expr) (operator : Token) (right : Expr) : Expr :=
  .binary left (operatorOf .binary operator) right (left.block.through right.block)

/-- The expression of an operator before its operand. -/
def unaryExpr (operator : Token) (operand : Expr) : Expr :=
  .unary (operatorOf .unary operator) operand (operator.block.through operand.block)

/-- The expression of a literal. -/
def literalExpr (type : Ty) (token : Token) : Expr :=
  .value ⟨type, token.text, token.block⟩ token.block

/-- A token of a terminal. -/
def expect (terminal : Terminal) : List Token → Reading Token
  | token :: rest => if token.terminal = terminal then .read token rest else .failed (token :: rest)
  | [] => .failed []

/-- The block of a token of a terminal, where there is one, and the tokens after it. -/
def optional (terminal : Terminal) : List Token → Option Block × List Token
  | token :: rest =>
    if token.terminal = terminal then (some token.block, rest) else (none, token :: rest)
  | [] => (none, [])

/-- Whether the next token is of a kind. -/
def nextIs (test : Terminal → Bool) : List Token → Bool
  | token :: _ => test token.terminal
  | [] => false

/-! ## Expressions -/

mutual

/-- An expression at a level. -/
def expression : (fuel : Nat) → Level → List Token → Reading Expr
  | 0, _, tokens => .failed tokens
  | fuel + 1, level, tokens =>
    match level.fixity with
    | .closed => atom fuel tokens
    | .leading =>
      match tokens with
      | token :: rest =>
        if level.hasOperator token.terminal then
          (expression fuel level rest).map (unaryExpr token)
        else expression fuel level.next (token :: rest)
      | [] => expression fuel level.next []
    | .left => (expression fuel level.next tokens).andThen (chain fuel level)
    | .once => (expression fuel level.next tokens).andThen (operation fuel level level.next)
    | .right => (expression fuel level.next tokens).andThen (operation fuel level level)

/-- A literal, a name or an expression in parentheses. -/
def atom : (fuel : Nat) → List Token → Reading Expr
  | fuel + 1, token :: rest =>
    match token.terminal with
    | .number => .read (literalExpr .number token) rest
    | .trueWord | .falseWord => .read (literalExpr .boolean token) rest
    | .identifier => .read (.identifier (identifierOf token) token.block) rest
    | .leftParen =>
      (expression fuel .logic rest).andThen fun inner rest =>
      (expect .rightParen rest).map fun closing =>
        .parenthesis inner (token.block.through closing.block)
    | _ => .failed (token :: rest)
  | _, tokens => .failed tokens

/-- What may follow the first operand of a level: an operator of it and an operand at another
level. -/
def operation : (fuel : Nat) → Level → Level → Expr → List Token → Reading Expr
  | fuel + 1, level, operand, left, token :: rest =>
    if level.hasOperator token.terminal then
      (expression fuel operand rest).map (binaryExpr left token)
    else .read left (token :: rest)
  | 0, _, _, _, token :: rest => .failed (token :: rest)
  | _, _, _, left, [] => .read left []

/-- What may follow the first operand of a level whose chains group to the left. -/
def chain : (fuel : Nat) → Level → Expr → List Token → Reading Expr
  | fuel + 1, level, left, token :: rest =>
    if level.hasOperator token.terminal then
      (expression fuel level.next rest).andThen fun right rest =>
        chain fuel level (binaryExpr left token right) rest
    else .read left (token :: rest)
  | 0, _, _, token :: rest => .failed (token :: rest)
  | _, _, left, [] => .read left []

end

/-! ## Declarations -/

/-- The type in a declaration. -/
def typeName : List Token → Reading TypeName
  | token :: rest =>
    match token.terminal with
    | .numWord => .read ⟨.number, token.block⟩ rest
    | .boolWord => .read ⟨.boolean, token.block⟩ rest
    | _ => .failed (token :: rest)
  | [] => .failed []

/-- The name and the type of a declaration in either order, and whether the name is first. -/
def fields : List Token → Reading (Bool × Identifier × TypeName)
  | token :: rest =>
    match token.terminal with
    | .identifier =>
      (expect .colon rest).andThen fun _ rest =>
      (typeName rest).map fun type => (true, identifierOf token, type)
    | .colon =>
      (typeName rest).andThen fun type rest =>
      (expect .identifier rest).map fun name => (false, identifierOf name, type)
    | _ => .failed (token :: rest)
  | [] => .failed []

/-- Whether a terminal starts a declaration. -/
def startsDeclaration : Terminal → Bool
  | .letWord | .constWord => true
  | _ => false

/-- A declaration. -/
def declaration (fuel : Nat) : List Token → Reading Declaration
  | token :: rest =>
    if startsDeclaration token.terminal then
      (fields rest).andThen fun (nameFirst, name, type) rest =>
      (expect .assign rest).andThen fun _ rest =>
      (expression fuel .logic rest).map fun value =>
        ⟨token.block, token.terminal == .constWord, nameFirst, name, type, value⟩
    else .failed (token :: rest)
  | [] => .failed []

/-- The declaration at the head of a `for` loop, where there is one. -/
def optionalDeclaration (fuel : Nat) (tokens : List Token) : Reading (Option Declaration) :=
  if nextIs startsDeclaration tokens then (declaration fuel tokens).map some
  else .read none tokens

/-! ## Commands -/

/-- Whether a terminal starts a command. -/
def startsCommand : Terminal → Bool
  | .identifier | .printWord | .ifWord | .whileWord | .forWord => true
  | _ => false

mutual

/-- A command. -/
def command : (fuel : Nat) → List Token → Reading Command
  | fuel + 1, token :: rest =>
    match token.terminal with
    | .identifier =>
      (expect .assign rest).andThen fun _ rest =>
      (expression fuel .logic rest).map fun value => .assign (identifierOf token) value
    | .printWord => (expression fuel .logic rest).map (.print token.block)
    | .ifWord =>
      (expression fuel .logic rest).andThen fun condition rest =>
      (body fuel (optional .thenWord rest).2).andThen fun first after =>
      match optional .elseWord after with
      | (some elseAt, after) =>
        (body fuel after).map fun second =>
          .ifElse token.block condition (optional .thenWord rest).1 first elseAt second
      | (none, after) =>
        .read (.ifThen token.block condition (optional .thenWord rest).1 first) after
    | .whileWord =>
      (expression fuel .logic rest).andThen fun condition rest =>
      (body fuel (optional .doWord rest).2).map fun inner =>
        .whileLoop token.block condition (optional .doWord rest).1 inner
    | .forWord =>
      (expect .leftParen rest).andThen fun _ rest =>
      (optionalDeclaration fuel rest).andThen fun initial rest =>
      (expect .comma rest).andThen fun _ rest =>
      (expression fuel .logic rest).andThen fun condition rest =>
      (expect .comma rest).andThen fun _ rest =>
      (optionalCommand fuel rest).andThen fun step rest =>
      (expect .rightParen rest).andThen fun closing rest =>
      (body fuel (optional .doWord rest).2).map fun inner =>
        .forLoop token.block initial condition step closing.block (optional .doWord rest).1 inner
    | _ => .failed (token :: rest)
  | _, tokens => .failed tokens

/-- A command, where the next token starts one. -/
def optionalCommand : (fuel : Nat) → List Token → Reading OptionalCommand
  | 0, tokens => .failed tokens
  | fuel + 1, tokens =>
    if nextIs startsCommand tokens then (command fuel tokens).map .some
    else .read .none tokens

/-- The body of a command. -/
def body : (fuel : Nat) → List Token → Reading Body
  | 0, tokens => .failed tokens
  | fuel + 1, tokens =>
    match optional .leftBrace tokens with
    | (some opening, rest) =>
      (optionalItems fuel rest).andThen fun inner rest =>
      (expect .rightBrace rest).map fun closing => .braced opening inner closing.block
    | (none, tokens) => (optionalCommand fuel tokens).map .bare

/-- The items up to a closing brace, where that is not next. -/
def optionalItems : (fuel : Nat) → List Token → Reading Items
  | 0, tokens => .failed tokens
  | fuel + 1, tokens =>
    if nextIs (· == .rightBrace) tokens then .read .nil tokens else items fuel tokens

/-- One item or more, with a separator between each two. -/
def items : (fuel : Nat) → List Token → Reading Items
  | 0, tokens => .failed tokens
  | fuel + 1, tokens =>
    if nextIs startsDeclaration tokens then
      (declaration fuel tokens).andThen fun first rest =>
      (moreItems fuel rest).map (.declaration first)
    else
      (command fuel tokens).andThen fun first rest =>
      (moreItems fuel rest).map (.command first)

/-- The items after the first. -/
def moreItems : (fuel : Nat) → List Token → Reading Items
  | 0, tokens => .failed tokens
  | fuel + 1, tokens =>
    match optional .separator tokens with
    | (some _, rest) => items fuel rest
    | (none, rest) => .read .nil rest

end

/-! ## Programs -/

/-- Enough fuel for a list of tokens. -/
def fuelFor (tokens : List Token) : Nat := 16 * (tokens.length + 1)

/-- The program that a list of tokens makes up, or the tokens from the first that none
continues with; with no tokens there, the list ended too early. -/
def program (tokens : List Token) : Except (List Token) Items :=
  if tokens.isEmpty then .ok .nil
  else match items (fuelFor tokens) tokens with
    | .read read [] => .ok read
    | .read _ rest => .error rest
    | .failed rest => .error rest

end Phrase
end SmallImp
