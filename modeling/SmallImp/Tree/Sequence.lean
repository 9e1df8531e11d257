/-
# Lists of items

A program and a braced body are lists of items, each a declaration or a command.  A list
becomes one command: a command is followed by the rest, and a run of declarations is a group
whose scope is all that comes after it.
-/
import SmallImp.Tree.Basic

namespace SmallImp

/-- A declaration or a command in a list. -/
inductive Item where
  | declaration (declaration : Declaration)
  | command (command : Command)

/-- The group of a run of declarations and one more. -/
def Declaration.joined (first : Declaration) (second : Declaration) : Declaration :=
  .group first second (first.block.union second.block)

/-- The scope of a declaration over a command. -/
def Declaration.over (declaration : Declaration) (body : Command) : Command :=
  .scope declaration body (declaration.block.union body.block)

/-- A command and what follows it, if anything does. -/
def Command.followedBy (first : Command) : Option Command → Command
  | none => first
  | some second => .sequence first second (first.block.union second.block)

/-- The command for the rest of a list, after a run of declarations that is still open; there
is none for nothing at all. -/
def Command.ofItems? : (run : Option Declaration) → List Item → Option Command
  | none, [] => none
  | some run, [] => some (run.over (.nil run.block.finish))
  | none, .command first :: rest => some (first.followedBy (ofItems? none rest))
  | some run, .command first :: rest => some (run.over (first.followedBy (ofItems? none rest)))
  | none, .declaration first :: rest => ofItems? (some first) rest
  | some run, .declaration next :: rest => ofItems? (some (run.joined next)) rest

/-- The command for a list of items; for none it does nothing at the given block. -/
def Command.ofItems (items : List Item) (block : Block) : Command :=
  (ofItems? none items).getD (.nil block)

end SmallImp
