/-
# All nodes of a tree

A tree is its root and what is below it (`Node.nodes`), and a property of all its nodes is one of
the root and of all nodes of its children (`Node.forall_mem_nodes`).  The label of a leaf has a
word of the program: a lexeme, a name, the word for a type or the symbol of an operator
(`Label.word?`).

A node is nested if its block goes from its start to its end and covers the blocks of its
children (`Node.Nested`).
-/
import SmallImp.Proofs.Source.Blocks
import SmallImp.Tree.Basic

namespace SmallImp

/-- Whether a label is of a command or of a declaration. -/
def Label.isInner : Label → Bool
  | .plain (.command _) | .plain (.declaration _) => true
  | _ => false

/-- The word of a program that a label stands for. -/
def Label.word? : Label → Option String
  | .plain _ => none
  | .value _ lexeme => some lexeme
  | .type ty => some ty.name
  | .identifier name => some name
  | .operator _ symbol => some symbol

theorem Label.word?_of_isInner {label : Label} (inner : label.isInner = true) :
    label.word? = none := by
  cases label with
  | plain => rfl
  | value | type | identifier | operator => cases inner

namespace Node

mutual

/-- The nodes of a tree, the root first. -/
def nodes : Node → List Node
  | .mk label block children => .mk label block children :: nodesAll children

/-- The nodes of a list of trees. -/
def nodesAll : List Node → List Node
  | [] => []
  | node :: rest => node.nodes ++ nodesAll rest

end

theorem mem_nodesAll {node : Node} {trees : List Node} :
    node ∈ nodesAll trees ↔ ∃ tree ∈ trees, node ∈ tree.nodes := by
  induction trees with
  | nil => simp [nodesAll]
  | cons tree rest ih => simp [nodesAll, ih]

/-- A property of all nodes is one of the root and of all nodes of its children. -/
theorem forall_mem_nodes {P : Node → Prop} (node : Node) :
    (∀ inner ∈ node.nodes, P inner) ↔
      P node ∧ ∀ child ∈ node.children, ∀ inner ∈ child.nodes, P inner := by
  obtain ⟨label, block, below⟩ := node
  rw [nodes, List.forall_mem_cons, Node.children]
  simp only [mem_nodesAll]
  refine and_congr_right fun _ => ⟨fun h child mem inner found => h inner ⟨child, mem, found⟩, ?_⟩
  rintro h inner ⟨child, mem, found⟩
  exact h child mem inner found

/-- Whether the block of a node goes from its start to its end, and covers those of its
children. -/
structure Nested (node : Node) : Prop where
  ordered : node.block.first ≤ node.block.last
  within : ∀ child ∈ node.children, child.block.Within node.block

end Node

/-! ## The blocks of nodes -/

@[simp]
theorem Expr.block_node (e : Expr) : e.node.block = e.block := by
  cases e <;> rfl

@[simp]
theorem Declaration.block_node (declaration : Declaration) :
    declaration.node.block = declaration.block := by
  cases declaration <;> rfl

@[simp]
theorem Command.block_node (command : Command) : command.node.block = command.block := by
  cases command <;> rfl

end SmallImp
