/-
# Nodes

A node is a tree in its most general form: a label, a block and any children.  It is the form
in which trees are written out, and in which a tree made by hand comes in.  The labels come in
families, and a node that stands for a command, say, may carry a kind of any family.
-/
import SmallImp.Source.Block
import SmallImp.Value

namespace SmallImp

/-- The kinds of commands. -/
inductive CommandKind where
  | nil | scope | sequence | assignment | branch | branchElse | loop | print
  deriving DecidableEq

/-- The kinds of expressions. -/
inductive ExpressionKind where
  | value | identifier | unary | binary | parenthesis
  deriving DecidableEq

/-- The kinds of declarations. -/
inductive DeclarationKind where
  | nil | constant | variable | group
  deriving DecidableEq

/-- The two kinds of operators. -/
inductive OperatorKind where
  | unary | binary
  deriving DecidableEq

/-- A kind of any family. -/
inductive Kind where
  | command (kind : CommandKind)
  | expression (kind : ExpressionKind)
  | declaration (kind : DeclarationKind)
  | value (type : Ty)
  | type (type : Ty)
  | operator (kind : OperatorKind)
  deriving DecidableEq

namespace Kind

/-- The name of a kind within its family. -/
def name : Kind → String
  | .command .nil => "NIL"
  | .command .scope => "DECLARATION_COMMAND"
  | .command .sequence => "COMMAND_COMMAND"
  | .command .assignment => "ASSIGNMENT"
  | .command .branch => "IF"
  | .command .branchElse => "IF_ELSE"
  | .command .loop => "WHILE"
  | .command .print => "PRINT"
  | .expression .value => "VALUE"
  | .expression .identifier => "IDENTIFICATOR"
  | .expression .unary => "UNARY_OPERATOR"
  | .expression .binary => "BINARY_OPERATOR"
  | .expression .parenthesis => "PARENTHESIS"
  | .declaration .nil => "NIL"
  | .declaration .constant => "CONSTANT"
  | .declaration .variable => "VARIABLE"
  | .declaration .group => "DECLARATION_DECLARATION"
  | .value .boolean => "BOOLEAN"
  | .value .number => "NUMBER"
  | .type .boolean => "BOOLEAN"
  | .type .number => "NUMBER"
  | .operator .unary => "UNARY_OPERATOR"
  | .operator .binary => "BINARY_OPERATOR"

/-- The name of the family of a kind. -/
def family : Kind → String
  | .command _ => "CommandKind"
  | .expression _ => "ExpressionKind"
  | .declaration _ => "DeclarationKind"
  | .value _ => "ValueKind"
  | .type _ => "TypeKind"
  | .operator _ => "OperatorKind"

/-- All kinds. -/
def all : List Kind :=
  [.command .nil, .command .scope, .command .sequence, .command .assignment, .command .branch,
   .command .branchElse, .command .loop, .command .print,
   .expression .value, .expression .identifier, .expression .unary, .expression .binary,
   .expression .parenthesis,
   .declaration .nil, .declaration .constant, .declaration .variable, .declaration .group,
   .value .boolean, .value .number, .type .boolean, .type .number,
   .operator .unary, .operator .binary]

/-- The kind with a name in a family. -/
def ofNames? (family name : String) : Option Kind :=
  all.find? fun kind => kind.family == family && kind.name == name

end Kind

/-- What a node says of itself. -/
inductive Label where
  /-- A command, a declaration or an expression: its children say the rest. -/
  | plain (kind : Kind)
  | value (type : Ty) (lexeme : String)
  | type (type : Ty)
  | identifier (name : String)
  | operator (kind : OperatorKind) (symbol : String)
  deriving DecidableEq

/-- The kind of a node with a label. -/
def Label.kind : Label → Kind
  | .plain kind => kind
  | .value ty _ => .value ty
  | .type ty => .type ty
  | .identifier _ => .expression .identifier
  | .operator kind _ => .operator kind

/-- A tree of labels. -/
inductive Node where
  | mk (label : Label) (block : Block) (children : List Node)

namespace Node

/-- The label at the root. -/
def label : Node → Label
  | .mk label _ _ => label

/-- The block at the root. -/
def block : Node → Block
  | .mk _ block _ => block

/-- The children of the root. -/
def children : Node → List Node
  | .mk _ _ children => children

/-- A node without children. -/
def leaf (label : Label) (block : Block) : Node := .mk label block []

mutual

/-- Whether two trees agree but for their blocks. -/
def same : Node → Node → Bool
  | .mk a _ as, .mk b _ bs => a == b && sameAll as bs

/-- Whether two lists of trees agree but for their blocks. -/
def sameAll : List Node → List Node → Bool
  | [], [] => true
  | a :: as, b :: bs => same a b && sameAll as bs
  | _, _ => false

end

end Node

end SmallImp
