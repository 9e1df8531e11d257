/-
# The trees of phrases

A phrase becomes a tree: lists of items are folded, empty bodies become commands that do
nothing, and a `for` loop becomes the scope of its declaration over a `while` loop whose body
is followed by the step.

A command that stands for nothing written has an empty block: after the condition or the first
branch for an empty branch, at the end of the loop for an empty loop body, after the body for a
missing step.
-/
import SmallImp.Phrase.Basic

namespace SmallImp
namespace Phrase

/-- The tree of a declaration. -/
def Declaration.tree (declaration : Declaration) : SmallImp.Declaration :=
  if declaration.constant then
    .constant declaration.name declaration.type.node declaration.value declaration.block
  else .variable declaration.name declaration.type.node declaration.value declaration.block

/-- The tree of a `for` loop: the declaration is made once, the step follows each round. -/
def expandedFor (initial : Option Declaration) (condition : Expr) (body : SmallImp.Command)
    (step : Option SmallImp.Command) (block : Block) : SmallImp.Command :=
  let declaration := match initial with
    | some written => written.tree
    | none => .nil block.start
  let after := step.getD (.nil body.block.finish)
  let round := .sequence body after (body.block.union after.block)
  .scope declaration (.loop condition round block) block

mutual

/-- The tree of a command. -/
def Command.tree : Command → SmallImp.Command
  | .assign target value => .assign target value (target.block.through value.block)
  | .print start value => .print value (start.through value.block)
  | .ifThen start condition thenAt body =>
    .branch condition (body.tree condition.block.finish)
      (Command.ifThen start condition thenAt body).block
  | .ifElse start condition thenAt body elseAt otherwise =>
    let first := body.tree condition.block.finish
    .branchElse condition first (otherwise.tree first.block.finish)
      (Command.ifElse start condition thenAt body elseAt otherwise).block
  | .whileLoop start condition doAt body =>
    let block := (Command.whileLoop start condition doAt body).block
    .loop condition (body.tree block.finish) block
  | .forLoop start initial condition step closing doAt body =>
    let block := (Command.forLoop start initial condition step closing doAt body).block
    expandedFor initial condition (body.tree block.finish) step.tree? block

/-- The tree of a command, if there is one. -/
def OptionalCommand.tree? : OptionalCommand → Option SmallImp.Command
  | .none => Option.none
  | .some command => Option.some command.tree

/-- The tree of a body; the given block is that of an empty one without braces. -/
def Body.tree (emptyAt : Block) : Body → SmallImp.Command
  | .bare command => command.tree?.getD (.nil emptyAt)
  | .braced opening items closing => .ofItems items.list (opening.through closing)

/-- The trees of the items of a list. -/
def Items.list : Items → List Item
  | .nil => []
  | .declaration first rest => .declaration first.tree :: rest.list
  | .command first rest => .command first.tree :: rest.list

end

/-- The tree of a whole program. -/
def Items.tree (items : Items) : SmallImp.Command := .ofItems items.list .origin

end Phrase
end SmallImp
