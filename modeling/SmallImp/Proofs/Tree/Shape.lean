/-
# The shapes of trees

Each kind of node calls for children of certain classes, in a certain number and order, and the
words at the leaves are of certain forms.  A node is laid out if that is so of it and of all nodes
below it (`Node.Laid`).

The trees of programs have most of this by their constructors.  What is left to say is that there
is nothing unknown in them and that their leaves are laid out: then they are `Shaped`, and their
nodes are laid out (`Command.Shaped.laid`).  A list of items that are shaped is folded to a command
that is shaped (`Command.shaped_ofItems`).
-/
import SmallImp.Operator
import SmallImp.Proofs.Token.Lexemes
import SmallImp.Proofs.Tree.Sequence

namespace SmallImp

/-! ## Nodes -/

/-- The classes of nodes. -/
inductive NodeClass where
  | command | declaration | expression | value | type | identifier | unaryOperator | binaryOperator
  deriving DecidableEq

namespace Label

/-- The class of the nodes with a label.  A kind of values, types or operators makes no label
without its word. -/
def nodeClass? : Label → Option NodeClass
  | .plain (.command _) => some .command
  | .plain (.declaration _) => some .declaration
  | .plain (.expression _) => some .expression
  | .plain (.value _) | .plain (.type _) | .plain (.operator _) => none
  | .value .. => some .value
  | .type _ => some .type
  | .identifier _ => some .identifier
  | .operator .unary _ => some .unaryOperator
  | .operator .binary _ => some .binaryOperator

/-- The classes of the children that a node with a label has. -/
def layout : Label → List NodeClass
  | .plain (.command .nil) => []
  | .plain (.command .scope) => [.declaration, .command]
  | .plain (.command .sequence) => [.command, .command]
  | .plain (.command .assignment) => [.identifier, .expression]
  | .plain (.command .branch) => [.expression, .command]
  | .plain (.command .branchElse) => [.expression, .command, .command]
  | .plain (.command .loop) => [.expression, .command]
  | .plain (.command .print) => [.expression]
  | .plain (.declaration .nil) => []
  | .plain (.declaration .constant) => [.identifier, .type, .expression]
  | .plain (.declaration .variable) => [.identifier, .type, .expression]
  | .plain (.declaration .group) => [.declaration, .declaration]
  | .plain (.expression .value) => [.value]
  | .plain (.expression .identifier) => [.identifier]
  | .plain (.expression .unary) => [.unaryOperator, .expression]
  | .plain (.expression .binary) => [.expression, .binaryOperator, .expression]
  | .plain (.expression .parenthesis) => [.expression]
  | _ => []

/-- Whether the word of a label is of its form: a name that is no keyword, a number, `true` or
`false`, or the symbol of an operator. -/
def Valid : Label → Prop
  | .identifier name =>
    Terminal.isWord name.toList = true ∧ name ∉ Terminal.keywords.map Prod.fst
  | .value .number lexeme => Terminal.IsNumber lexeme.toList
  | .value .boolean lexeme => lexeme = "true" ∨ lexeme = "false"
  | .operator .unary symbol => (UnaryOperator.ofSymbol? symbol).isSome = true
  | .operator .binary symbol => (BinaryOperator.ofSymbol? symbol).isSome = true
  | .plain _ | .type _ => True

end Label

namespace Node

mutual

/-- Whether a node is of a class, and laid out as its label asks, and all nodes below it. -/
def Laid (cls : NodeClass) : Node → Prop
  | .mk label _ children =>
    label.nodeClass? = some cls ∧ label.Valid ∧ LaidAll label.layout children

/-- Whether nodes are laid out and of the given classes one by one. -/
def LaidAll : List NodeClass → List Node → Prop
  | [], [] => True
  | cls :: classes, node :: rest => Laid cls node ∧ LaidAll classes rest
  | _, _ => False

end

end Node

/-- A command that prints has what it prints below it. -/
example (block : Block) : ¬ (Node.leaf (.plain (.command .print)) block).Laid .command :=
  fun h => h.2.2

/-- The symbol of an operator that stands before its operand is in the table. -/
theorem Node.Laid.isSome_unary {operator : Operator} (h : operator.node.Laid .unaryOperator) :
    (UnaryOperator.ofSymbol? operator.symbol).isSome = true := by
  obtain ⟨kind, symbol, block⟩ := operator
  obtain ⟨cls, valid, -⟩ := h
  cases kind with
  | unary => exact valid
  | binary => cases cls

/-- The symbol of an operator that stands between its operands is in the table. -/
theorem Node.Laid.isSome_binary {operator : Operator} (h : operator.node.Laid .binaryOperator) :
    (BinaryOperator.ofSymbol? operator.symbol).isSome = true := by
  obtain ⟨kind, symbol, block⟩ := operator
  obtain ⟨cls, valid, -⟩ := h
  cases kind with
  | unary => cases cls
  | binary => exact valid

/-! ## Trees -/

/-- Whether an expression has nothing unknown in it, and its leaves are laid out. -/
def Expr.Shaped : Expr → Prop
  | .value literal _ => literal.node.Laid .value
  | .identifier name _ => name.node.Laid .identifier
  | .unary operator operand _ => operator.node.Laid .unaryOperator ∧ operand.Shaped
  | .binary left operator right _ =>
    left.Shaped ∧ operator.node.Laid .binaryOperator ∧ right.Shaped
  | .parenthesis inner _ => inner.Shaped
  | .unknown _ => False

/-- Whether a declaration has nothing unknown in it, and its leaves are laid out. -/
def Declaration.Shaped : Declaration → Prop
  | .nil _ => True
  | .variable name type value _ | .constant name type value _ =>
    name.node.Laid .identifier ∧ type.Laid .type ∧ value.Shaped
  | .group first second _ => first.Shaped ∧ second.Shaped
  | .unknown _ => False

/-- Whether a command has nothing unknown in it, and its leaves are laid out. -/
def Command.Shaped : Command → Prop
  | .nil _ => True
  | .scope declaration body _ => declaration.Shaped ∧ body.Shaped
  | .sequence first second _ => first.Shaped ∧ second.Shaped
  | .assign target value _ => target.node.Laid .identifier ∧ value.Shaped
  | .branch condition body _ | .loop condition body _ => condition.Shaped ∧ body.Shaped
  | .branchElse condition body otherwise _ =>
    condition.Shaped ∧ body.Shaped ∧ otherwise.Shaped
  | .print value _ => value.Shaped
  | .unknown _ => False

theorem Expr.Shaped.laid {e : Expr} (h : e.Shaped) : e.node.Laid .expression := by
  induction e with
  | value | identifier => exact ⟨rfl, trivial, h, trivial⟩
  | unary _ _ _ ih => exact ⟨rfl, trivial, h.1, ih h.2, trivial⟩
  | binary _ _ _ _ ihLeft ihRight =>
    exact ⟨rfl, trivial, ihLeft h.1, h.2.1, ihRight h.2.2, trivial⟩
  | parenthesis _ _ ih => exact ⟨rfl, trivial, ih h, trivial⟩
  | unknown => exact h.elim

theorem Declaration.Shaped.laid {declaration : Declaration} (h : declaration.Shaped) :
    declaration.node.Laid .declaration := by
  induction declaration with
  | nil => exact ⟨rfl, trivial, trivial⟩
  | «variable» | constant => exact ⟨rfl, trivial, h.1, h.2.1, h.2.2.laid, trivial⟩
  | group _ _ _ ihFirst ihSecond => exact ⟨rfl, trivial, ihFirst h.1, ihSecond h.2, trivial⟩
  | unknown => exact h.elim

/-- **The node of a shaped command is laid out.** -/
theorem Command.Shaped.laid {command : Command} (h : command.Shaped) :
    command.node.Laid .command := by
  induction command with
  | nil => exact ⟨rfl, trivial, trivial⟩
  | scope _ _ _ ih => exact ⟨rfl, trivial, h.1.laid, ih h.2, trivial⟩
  | sequence _ _ _ ihFirst ihSecond => exact ⟨rfl, trivial, ihFirst h.1, ihSecond h.2, trivial⟩
  | assign => exact ⟨rfl, trivial, h.1, h.2.laid, trivial⟩
  | branch _ _ _ ih | loop _ _ _ ih => exact ⟨rfl, trivial, h.1.laid, ih h.2, trivial⟩
  | branchElse _ _ _ _ ihBody ihOtherwise =>
    exact ⟨rfl, trivial, h.1.laid, ihBody h.2.1, ihOtherwise h.2.2, trivial⟩
  | print => exact ⟨rfl, trivial, Expr.Shaped.laid h, trivial⟩
  | unknown => exact h.elim

/-! ## Lists of items -/

/-- Whether an item is shaped. -/
def Item.Shaped : Item → Prop
  | .declaration here => here.Shaped
  | .command here => here.Shaped

section MadeOf
variable {fits : Block → List Item → Prop} {items : List Item}

/-- What is made of declarations that are shaped is shaped. -/
theorem Declaration.MadeOf.shaped {declaration : Declaration} (h : declaration.MadeOf fits items)
    (all : ∀ item ∈ items, item.Shaped) : declaration.Shaped := by
  induction h with
  | item here => exact all _ List.mem_cons_self
  | group _ _ _ ihFirst ihSecond =>
    obtain ⟨left, right⟩ := List.forall_mem_append.1 all
    exact ⟨ihFirst left, ihSecond right⟩

/-- What is made of items that are shaped is shaped. -/
theorem Command.MadeOf.shaped {command : Command} (h : command.MadeOf fits items)
    (all : ∀ item ∈ items, item.Shaped) : command.Shaped := by
  induction h with
  | nothing => trivial
  | item here => exact all _ List.mem_cons_self
  | sequence _ _ ih =>
    obtain ⟨here, later⟩ := List.forall_mem_cons.1 all
    exact ⟨here, ih later⟩
  | scope made _ _ ih =>
    obtain ⟨left, right⟩ := List.forall_mem_append.1 all
    exact ⟨made.shaped left, ih right⟩

end MadeOf

/-- **Items that are shaped are folded to a command that is shaped.** -/
theorem Command.shaped_ofItems {items : List Item} (all : ∀ item ∈ items, item.Shaped)
    (block : Block) : (ofItems items block).Shaped := (madeOf_ofItems items block).shaped all

end SmallImp
