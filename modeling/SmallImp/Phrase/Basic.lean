/-
# Phrases

A phrase is a declaration, a command or a list of them as it was written: with the optional
words `then` and `do`, the order of the fields of a declaration, and the braces of a body.
It keeps the blocks of the words and brackets that its own block depends on.  Expressions lose
nothing when they become trees, so a phrase holds their trees.
-/
import SmallImp.Tree.Sequence

namespace SmallImp
namespace Phrase

/-- A declaration, `let name : type = value` or `let : type name = value`, or with `const`. -/
structure Declaration where
  /-- The block of `let` or `const`. -/
  start : Block
  constant : Bool
  /-- Whether the name stands before the type. -/
  nameFirst : Bool
  name : Identifier
  type : TypeName
  value : Expr

mutual

/-- A command as written. -/
inductive Command where
  | assign (target : Identifier) (value : Expr)
  | print (start : Block) (value : Expr)
  | ifThen (start : Block) (condition : Expr) (thenAt : Option Block) (body : Body)
  | ifElse (start : Block) (condition : Expr) (thenAt : Option Block) (body : Body)
      (elseAt : Block) (otherwise : Body)
  | whileLoop (start : Block) (condition : Expr) (doAt : Option Block) (body : Body)
  | forLoop (start : Block) (initial : Option Declaration) (condition : Expr)
      (step : OptionalCommand) (closing : Block) (doAt : Option Block) (body : Body)

/-- A command or nothing. -/
inductive OptionalCommand where
  | none
  | some (command : Command)

/-- The body of a command: at most one command, or any items in braces. -/
inductive Body where
  | bare (command : OptionalCommand)
  | braced (opening : Block) (items : Items) (closing : Block)

/-- A list of declarations and commands. -/
inductive Items where
  | nil
  | declaration (first : Declaration) (rest : Items)
  | command (first : Command) (rest : Items)

end

/-- The block of a declaration. -/
def Declaration.block (declaration : Declaration) : Block :=
  declaration.start.through declaration.value.block

mutual

/-- The block of a command, from its first token to its last. -/
def Command.block : Command → Block
  | .assign target value => target.block.through value.block
  | .print start value => start.through value.block
  | .ifThen start condition thenAt body =>
    start.through (body.lastBlock (thenAt.getD condition.block))
  | .ifElse start _ _ _ elseAt otherwise => start.through (otherwise.lastBlock elseAt)
  | .whileLoop start condition doAt body =>
    start.through (body.lastBlock (doAt.getD condition.block))
  | .forLoop start _ _ _ closing doAt body => start.through (body.lastBlock (doAt.getD closing))

/-- A block that ends where an optional command does; before nothing, the given one. -/
def OptionalCommand.lastBlock (before : Block) : OptionalCommand → Block
  | .none => before
  | .some command => command.block

/-- A block that ends where a body does; before an empty one, the given one. -/
def Body.lastBlock (before : Block) : Body → Block
  | .bare command => command.lastBlock before
  | .braced _ _ closing => closing

end

end Phrase
end SmallImp
