/-
# Trees

The tree of a program: expressions, declarations and commands with the children that their
kinds call for.  Every node carries the block of source text that it covers.  A node with a
kind of another family, or without the children of its kind, is `unknown`: it can be written
out, and it has no meaning.

What has no meaning is kept all the same, so that a tree is written out as it came in: the kind
of an operator, and the node that stands for the type of a declaration.
-/
import SmallImp.Tree.Node

namespace SmallImp

/-- A name in a program. -/
structure Identifier where
  name : String
  block : Block
  deriving DecidableEq

/-- A literal: its lexeme is read when it is evaluated. -/
structure Literal where
  type : Ty
  lexeme : String
  block : Block
  deriving DecidableEq

/-- The type written in a declaration. -/
structure TypeName where
  type : Ty
  block : Block
  deriving DecidableEq

/-- An operator, by its symbol; the symbol may be none that is known.  Whether it stands before
one operand or between two is up to the expression, whatever its own kind. -/
structure Operator where
  kind : OperatorKind
  symbol : String
  block : Block
  deriving DecidableEq

/-- Expressions. -/
inductive Expr where
  | value (literal : Literal) (block : Block)
  | identifier (name : Identifier) (block : Block)
  | unary (operator : Operator) (operand : Expr) (block : Block)
  | binary (left : Expr) (operator : Operator) (right : Expr) (block : Block)
  | parenthesis (inner : Expr) (block : Block)
  | unknown (node : Node)

/-- Declarations.  A group elaborates its two parts from left to right. -/
inductive Declaration where
  | nil (block : Block)
  | variable (name : Identifier) (type : Node) (initial : Expr) (block : Block)
  | constant (name : Identifier) (type : Node) (value : Expr) (block : Block)
  | group (first second : Declaration) (block : Block)
  | unknown (node : Node)

/-- Commands.  A scope is a declaration over the command that sees it. -/
inductive Command where
  | nil (block : Block)
  | scope (declaration : Declaration) (body : Command) (block : Block)
  | sequence (first second : Command) (block : Block)
  | assign (target : Identifier) (value : Expr) (block : Block)
  | branch (condition : Expr) (body : Command) (block : Block)
  | branchElse (condition : Expr) (body otherwise : Command) (block : Block)
  | loop (condition : Expr) (body : Command) (block : Block)
  | print (value : Expr) (block : Block)
  | unknown (node : Node)

/-- The block of an expression. -/
def Expr.block : Expr → Block
  | .value _ block | .identifier _ block | .unary _ _ block | .binary _ _ _ block
  | .parenthesis _ block => block
  | .unknown node => node.block

/-- The block of a declaration. -/
def Declaration.block : Declaration → Block
  | .nil block | .variable _ _ _ block | .constant _ _ _ block | .group _ _ block => block
  | .unknown node => node.block

/-- The block of a command. -/
def Command.block : Command → Block
  | .nil block | .scope _ _ block | .sequence _ _ block | .assign _ _ block | .branch _ _ block
  | .branchElse _ _ _ block | .loop _ _ block | .print _ block => block
  | .unknown node => node.block

/-! ## As nodes -/

/-- A literal as a node. -/
def Literal.node (literal : Literal) : Node :=
  .leaf (.value literal.type literal.lexeme) literal.block

/-- An identifier as a node. -/
def Identifier.node (identifier : Identifier) : Node :=
  .leaf (.identifier identifier.name) identifier.block

/-- A written type as a node. -/
def TypeName.node (name : TypeName) : Node := .leaf (.type name.type) name.block

/-- An operator as a node. -/
def Operator.node (operator : Operator) : Node :=
  .leaf (.operator operator.kind operator.symbol) operator.block

/-- An expression as a node. -/
def Expr.node : Expr → Node
  | .value literal block => .mk (.plain (.expression .value)) block [literal.node]
  | .identifier name block => .mk (.plain (.expression .identifier)) block [name.node]
  | .unary operator operand block =>
    .mk (.plain (.expression .unary)) block [operator.node, operand.node]
  | .binary left operator right block =>
    .mk (.plain (.expression .binary)) block [left.node, operator.node, right.node]
  | .parenthesis inner block => .mk (.plain (.expression .parenthesis)) block [inner.node]
  | .unknown node => node

/-- A declaration as a node. -/
def Declaration.node : Declaration → Node
  | .nil block => .leaf (.plain (.declaration .nil)) block
  | .variable name type initial block =>
    .mk (.plain (.declaration .variable)) block [name.node, type, initial.node]
  | .constant name type value block =>
    .mk (.plain (.declaration .constant)) block [name.node, type, value.node]
  | .group first second block =>
    .mk (.plain (.declaration .group)) block [first.node, second.node]
  | .unknown node => node

/-- A command as a node. -/
def Command.node : Command → Node
  | .nil block => .leaf (.plain (.command .nil)) block
  | .scope declaration body block =>
    .mk (.plain (.command .scope)) block [declaration.node, body.node]
  | .sequence first second block =>
    .mk (.plain (.command .sequence)) block [first.node, second.node]
  | .assign target value block =>
    .mk (.plain (.command .assignment)) block [target.node, value.node]
  | .branch condition body block =>
    .mk (.plain (.command .branch)) block [condition.node, body.node]
  | .branchElse condition body otherwise block =>
    .mk (.plain (.command .branchElse)) block [condition.node, body.node, otherwise.node]
  | .loop condition body block =>
    .mk (.plain (.command .loop)) block [condition.node, body.node]
  | .print value block => .mk (.plain (.command .print)) block [value.node]
  | .unknown node => node

/-! ## From nodes -/

/-- The expression that a node stands for. -/
def Expr.ofNode : Node → Expr
  | .mk (.plain (.expression .value)) block [.mk (.value type lexeme) inner []] =>
    .value ⟨type, lexeme, inner⟩ block
  | .mk (.plain (.expression .identifier)) block [.mk (.identifier name) inner []] =>
    .identifier ⟨name, inner⟩ block
  | .mk (.plain (.expression .unary)) block [.mk (.operator kind symbol) inner [], operand] =>
    .unary ⟨kind, symbol, inner⟩ (ofNode operand) block
  | .mk (.plain (.expression .binary)) block
      [left, .mk (.operator kind symbol) inner [], right] =>
    .binary (ofNode left) ⟨kind, symbol, inner⟩ (ofNode right) block
  | .mk (.plain (.expression .parenthesis)) block [inner] => .parenthesis (ofNode inner) block
  | node => .unknown node
  termination_by structural node => node

/-- The declaration that a node stands for. -/
def Declaration.ofNode : Node → Declaration
  | .mk (.plain (.declaration .nil)) block [] => .nil block
  | .mk (.plain (.declaration .variable)) block
      [.mk (.identifier name) nameBlock [], type, initial] =>
    .variable ⟨name, nameBlock⟩ type (.ofNode initial) block
  | .mk (.plain (.declaration .constant)) block
      [.mk (.identifier name) nameBlock [], type, value] =>
    .constant ⟨name, nameBlock⟩ type (.ofNode value) block
  | .mk (.plain (.declaration .group)) block [first, second] =>
    .group (ofNode first) (ofNode second) block
  | node => .unknown node
  termination_by structural node => node

/-- The command that a node stands for. -/
def Command.ofNode : Node → Command
  | .mk (.plain (.command .nil)) block [] => .nil block
  | .mk (.plain (.command .scope)) block [declaration, body] =>
    .scope (.ofNode declaration) (ofNode body) block
  | .mk (.plain (.command .sequence)) block [first, second] =>
    .sequence (ofNode first) (ofNode second) block
  | .mk (.plain (.command .assignment)) block [.mk (.identifier name) inner [], value] =>
    .assign ⟨name, inner⟩ (.ofNode value) block
  | .mk (.plain (.command .branch)) block [condition, body] =>
    .branch (.ofNode condition) (ofNode body) block
  | .mk (.plain (.command .branchElse)) block [condition, body, otherwise] =>
    .branchElse (.ofNode condition) (ofNode body) (ofNode otherwise) block
  | .mk (.plain (.command .loop)) block [condition, body] =>
    .loop (.ofNode condition) (ofNode body) block
  | .mk (.plain (.command .print)) block [value] => .print (.ofNode value) block
  | node => .unknown node
  termination_by structural node => node

/-! ## Nothing is lost -/

/-- The node of the expression that a node stands for is that node. -/
theorem Expr.node_ofNode (node : Node) : (Expr.ofNode node).node = node := by
  fun_induction Expr.ofNode node <;>
    simp_all [Expr.node, Literal.node, Identifier.node, Operator.node, Node.leaf]

/-- The node of the declaration that a node stands for is that node. -/
theorem Declaration.node_ofNode (node : Node) : (Declaration.ofNode node).node = node := by
  fun_induction Declaration.ofNode node <;>
    simp_all [Declaration.node, Identifier.node, Node.leaf, Expr.node_ofNode]

/-- The node of the command that a node stands for is that node. -/
theorem Command.node_ofNode (node : Node) : (Command.ofNode node).node = node := by
  fun_induction Command.ofNode node <;>
    simp_all [Command.node, Identifier.node, Node.leaf, Expr.node_ofNode,
      Declaration.node_ofNode]

end SmallImp
