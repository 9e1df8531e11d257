/-
# The structure of a tree

A tree is stripped of its blocks, of its parentheses and of the types that its declarations write
(`Node.stripped`).  What is left is the structure that its meaning is to depend on.

A command with nothing unknown in it is found again in its node (`Command.Known.ofNode_node`).  So
stripping can be done on the commands themselves (`Command.stripped`): two of them whose nodes have
one structure are stripped to one command (`Command.Known.stripped_eq`).
-/
import SmallImp.Proofs.Tree.Erasure
import SmallImp.Proofs.Tree.Shape

namespace SmallImp

/-! ## Stripped nodes -/

/-- A label with `num` in place of any written type. -/
def Label.untyped : Label → Label
  | .type _ => .type .number
  | label => label

/-- The node of a label over stripped children: parentheses are what they enclose. -/
def Label.over : Label → List Node → Node
  | .plain (.expression .parenthesis), [inner] => inner
  | label, children => .mk label.untyped .origin children

namespace Node

mutual

/-- A tree without its blocks, its parentheses and the kinds of its written types. -/
def stripped : Node → Node
  | .mk label _ children => label.over (strippedAll children)

/-- A list of trees without these. -/
def strippedAll : List Node → List Node
  | [] => []
  | node :: rest => stripped node :: strippedAll rest

end

mutual

/-- Blocks may be erased before. -/
theorem stripped_erased (node : Node) : node.erased.stripped = node.stripped := by
  obtain ⟨label, block, children⟩ := node
  rw [erased, stripped, stripped, strippedAll_erasedAll children]

theorem strippedAll_erasedAll (nodes : List Node) :
    strippedAll (erasedAll nodes) = strippedAll nodes := by
  match nodes with
  | [] => rfl
  | node :: rest =>
    rw [erasedAll, strippedAll, strippedAll, stripped_erased node, strippedAll_erasedAll rest]

end

/-- Trees that agree but for their blocks have one structure. -/
theorem stripped_eq_of_same {a b : Node} (same : a.same b = true) : a.stripped = b.stripped := by
  rw [← stripped_erased a, ← stripped_erased b, (same_iff a b).1 same]

end Node

/-! ## Stripped commands -/

/-- An expression without its blocks and parentheses. -/
def Expr.stripped : Expr → Expr
  | .value literal _ => .value literal.erased .origin
  | .identifier name _ => .identifier name.erased .origin
  | .unary operator operand _ => .unary operator.erased operand.stripped .origin
  | .binary left operator right _ =>
    .binary left.stripped operator.erased right.stripped .origin
  | .parenthesis inner _ => inner.stripped
  | .unknown node => .unknown node.stripped

/-- A declaration without its blocks, its parentheses and the types that it writes. -/
def Declaration.stripped : Declaration → Declaration
  | .nil _ => .nil .origin
  | .variable name type initial _ =>
    .variable name.erased type.stripped initial.stripped .origin
  | .constant name type value _ => .constant name.erased type.stripped value.stripped .origin
  | .group first second _ => .group first.stripped second.stripped .origin
  | .unknown node => .unknown node.stripped

/-- A command without its blocks, its parentheses and the types that it writes. -/
def Command.stripped : Command → Command
  | .nil _ => .nil .origin
  | .scope declaration body _ => .scope declaration.stripped body.stripped .origin
  | .sequence first second _ => .sequence first.stripped second.stripped .origin
  | .assign target value _ => .assign target.erased value.stripped .origin
  | .branch condition body _ => .branch condition.stripped body.stripped .origin
  | .branchElse condition body otherwise _ =>
    .branchElse condition.stripped body.stripped otherwise.stripped .origin
  | .loop condition body _ => .loop condition.stripped body.stripped .origin
  | .print value _ => .print value.stripped .origin
  | .unknown node => .unknown node.stripped

theorem Expr.node_stripped (e : Expr) : e.stripped.node = e.node.stripped := by
  induction e with
  | value | identifier | unknown => rfl
  | unary _ _ _ ih => rw [stripped, node, ih]; rfl
  | binary _ _ _ _ ihLeft ihRight => rw [stripped, node, ihLeft, ihRight]; rfl
  | parenthesis _ _ ih => rw [stripped, ih]; rfl

theorem Declaration.node_stripped (declaration : Declaration) :
    declaration.stripped.node = declaration.node.stripped := by
  induction declaration with
  | nil | unknown => rfl
  | «variable» | constant => rw [stripped, node, Expr.node_stripped]; rfl
  | group _ _ _ ihFirst ihSecond => rw [stripped, node, ihFirst, ihSecond]; rfl

theorem Command.node_stripped (command : Command) :
    command.stripped.node = command.node.stripped := by
  induction command with
  | nil | unknown => rfl
  | scope _ _ _ ih => rw [stripped, node, Declaration.node_stripped, ih]; rfl
  | sequence _ _ _ ihFirst ihSecond => rw [stripped, node, ihFirst, ihSecond]; rfl
  | assign | print => rw [stripped, node, Expr.node_stripped]; rfl
  | branch _ _ _ ih | loop _ _ _ ih => rw [stripped, node, Expr.node_stripped, ih]; rfl
  | branchElse _ _ _ _ ihBody ihOtherwise =>
    rw [stripped, node, Expr.node_stripped, ihBody, ihOtherwise]; rfl

/-! ## Commands with nothing unknown in them -/

/-- Whether an expression has nothing unknown in it.  Its literals and operators may be any. -/
def Expr.Known : Expr → Prop
  | .value .. | .identifier .. => True
  | .unary _ operand _ => operand.Known
  | .binary left _ right _ => left.Known ∧ right.Known
  | .parenthesis inner _ => inner.Known
  | .unknown _ => False

/-- Whether a declaration has nothing unknown in it. -/
def Declaration.Known : Declaration → Prop
  | .nil _ => True
  | .variable _ _ value _ | .constant _ _ value _ => value.Known
  | .group first second _ => first.Known ∧ second.Known
  | .unknown _ => False

/-- Whether a command has nothing unknown in it. -/
def Command.Known : Command → Prop
  | .nil _ => True
  | .scope declaration body _ => declaration.Known ∧ body.Known
  | .sequence first second _ => first.Known ∧ second.Known
  | .assign _ value _ | .print value _ => value.Known
  | .branch condition body _ | .loop condition body _ => condition.Known ∧ body.Known
  | .branchElse condition body otherwise _ => condition.Known ∧ body.Known ∧ otherwise.Known
  | .unknown _ => False

theorem Expr.Shaped.known {e : Expr} (h : e.Shaped) : e.Known := by
  induction e with
  | value | identifier => trivial
  | unary _ _ _ ih => exact ih h.2
  | binary _ _ _ _ ihLeft ihRight => exact ⟨ihLeft h.1, ihRight h.2.2⟩
  | parenthesis _ _ ih => exact ih h
  | unknown => exact h

theorem Declaration.Shaped.known {declaration : Declaration} (h : declaration.Shaped) :
    declaration.Known := by
  induction declaration with
  | nil => trivial
  | «variable» | constant => exact h.2.2.known
  | group _ _ _ ihFirst ihSecond => exact ⟨ihFirst h.1, ihSecond h.2⟩
  | unknown => exact h

/-- There is nothing unknown in a command that is shaped. -/
theorem Command.Shaped.known {command : Command} (h : command.Shaped) : command.Known := by
  induction command with
  | nil => trivial
  | scope _ _ _ ih => exact ⟨h.1.known, ih h.2⟩
  | sequence _ _ _ ihFirst ihSecond => exact ⟨ihFirst h.1, ihSecond h.2⟩
  | assign => exact h.2.known
  | branch _ _ _ ih | loop _ _ _ ih => exact ⟨h.1.known, ih h.2⟩
  | branchElse _ _ _ _ ihBody ihOtherwise => exact ⟨h.1.known, ihBody h.2.1, ihOtherwise h.2.2⟩
  | print => exact Expr.Shaped.known h
  | unknown => exact h

theorem Expr.Known.stripped {e : Expr} (h : e.Known) : e.stripped.Known := by
  induction e with
  | value | identifier => trivial
  | unary _ _ _ ih | parenthesis _ _ ih => exact ih h
  | binary _ _ _ _ ihLeft ihRight => exact ⟨ihLeft h.1, ihRight h.2⟩
  | unknown => exact h

theorem Declaration.Known.stripped {declaration : Declaration} (h : declaration.Known) :
    declaration.stripped.Known := by
  induction declaration with
  | nil => trivial
  | «variable» | constant => exact Expr.Known.stripped h
  | group _ _ _ ihFirst ihSecond => exact ⟨ihFirst h.1, ihSecond h.2⟩
  | unknown => exact h

theorem Command.Known.stripped {command : Command} (h : command.Known) :
    command.stripped.Known := by
  induction command with
  | nil => trivial
  | scope _ _ _ ih => exact ⟨h.1.stripped, ih h.2⟩
  | sequence _ _ _ ihFirst ihSecond => exact ⟨ihFirst h.1, ihSecond h.2⟩
  | assign | print => exact Expr.Known.stripped h
  | branch _ _ _ ih | loop _ _ _ ih => exact ⟨h.1.stripped, ih h.2⟩
  | branchElse _ _ _ _ ihBody ihOtherwise =>
    exact ⟨h.1.stripped, ihBody h.2.1, ihOtherwise h.2.2⟩
  | unknown => exact h

theorem Expr.Known.ofNode_node {e : Expr} (h : e.Known) : Expr.ofNode e.node = e := by
  induction e with
  | value | identifier => rfl
  | unary _ _ _ ih => rw [node, Operator.node, Node.leaf, ofNode, ih h]
  | binary _ _ _ _ ihLeft ihRight =>
    rw [node, Operator.node, Node.leaf, ofNode, ihLeft h.1, ihRight h.2]
  | parenthesis _ _ ih => rw [node, ofNode, ih h]
  | unknown => exact h.elim

theorem Declaration.Known.ofNode_node {declaration : Declaration} (h : declaration.Known) :
    Declaration.ofNode declaration.node = declaration := by
  induction declaration with
  | nil => rfl
  | «variable» | constant =>
    rw [node, Identifier.node, Node.leaf, ofNode, Expr.Known.ofNode_node h]
  | group _ _ _ ihFirst ihSecond => rw [node, ofNode, ihFirst h.1, ihSecond h.2]
  | unknown => exact h.elim

/-- **A command with nothing unknown in it is the one that its node stands for.** -/
theorem Command.Known.ofNode_node {command : Command} (h : command.Known) :
    Command.ofNode command.node = command := by
  induction command with
  | nil => rfl
  | scope _ _ _ ih => rw [node, ofNode, h.1.ofNode_node, ih h.2]
  | sequence _ _ _ ihFirst ihSecond => rw [node, ofNode, ihFirst h.1, ihSecond h.2]
  | assign => rw [node, Identifier.node, Node.leaf, ofNode, Expr.Known.ofNode_node h]
  | branch _ _ _ ih | loop _ _ _ ih => rw [node, ofNode, h.1.ofNode_node, ih h.2]
  | branchElse _ _ _ _ ihBody ihOtherwise =>
    rw [node, ofNode, h.1.ofNode_node, ihBody h.2.1, ihOtherwise h.2.2]
  | print => rw [node, ofNode, Expr.Known.ofNode_node h]
  | unknown => exact h.elim

/-- **Commands whose nodes have one structure are stripped to one command.** -/
theorem Command.Known.stripped_eq {a b : Command} (known : a.Known) (known' : b.Known)
    (same : a.node.stripped = b.node.stripped) : a.stripped = b.stripped :=
  calc a.stripped = Command.ofNode a.stripped.node := known.stripped.ofNode_node.symm
    _ = Command.ofNode b.stripped.node := by rw [node_stripped, same, node_stripped]
    _ = b.stripped := known'.stripped.ofNode_node

end SmallImp
