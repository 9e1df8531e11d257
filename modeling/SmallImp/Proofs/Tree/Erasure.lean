/-
# Tokens and trees without their blocks

Two trees are the same program if they agree but for their blocks.  `erased` puts the empty block
at the start of a text in the place of all blocks, so trees that agree but for their blocks are
those that are erased to one tree (`Node.same_iff`).  Folding a list of items makes its blocks of
the items' alone, so it may be done before or after (`Command.erased_ofItems`).
-/
import SmallImp.Token.Terminal
import SmallImp.Tree.Sequence

namespace SmallImp

/-! ## Tokens -/

/-- A token with its block erased, and for a separator also its text. -/
def Token.erased (token : Token) : Token :=
  { token with
    text := if token.terminal = .separator then "" else token.text
    block := .origin }

@[simp]
theorem Token.terminal_erased (token : Token) : token.erased.terminal = token.terminal := rfl

@[simp]
theorem Token.block_erased (token : Token) : token.erased.block = .origin := rfl

/-- An erased token is of the terminal that the token was of. -/
theorem Token.erased_of {token : Token} {terminal : Terminal} (h : token.terminal = terminal) :
    token.erased.terminal = terminal := h

theorem Token.text_erased {token : Token} (h : token.terminal ≠ .separator) :
    token.erased.text = token.text := if_neg h

/-! ## Nodes -/

namespace Node

mutual

/-- A tree with all its blocks erased. -/
def erased : Node → Node
  | .mk label _ children => .mk label .origin (erasedAll children)

/-- A list of trees with all their blocks erased. -/
def erasedAll : List Node → List Node
  | [] => []
  | node :: rest => erased node :: erasedAll rest

end

@[simp]
theorem block_erased (node : Node) : node.erased.block = .origin := by
  cases node
  rfl

mutual

@[simp]
theorem erased_erased (node : Node) : node.erased.erased = node.erased := by
  cases node with
  | mk label block children => simp only [erased, erasedAll_erasedAll children]

@[simp]
theorem erasedAll_erasedAll (nodes : List Node) :
    erasedAll (erasedAll nodes) = erasedAll nodes := by
  cases nodes with
  | nil => rfl
  | cons node rest => simp only [erasedAll, erased_erased node, erasedAll_erasedAll rest]

end

mutual

/-- **Two trees agree but for their blocks just if they are erased to one.** -/
theorem same_iff (a b : Node) : a.same b = true ↔ a.erased = b.erased := by
  cases a with
  | mk label block children =>
    cases b with
    | mk label' block' children' =>
      simp [same, erased, sameAll_iff children children']

theorem sameAll_iff (as bs : List Node) : sameAll as bs = true ↔ erasedAll as = erasedAll bs := by
  cases as with
  | nil => cases bs <;> simp [sameAll, erasedAll]
  | cons a as =>
    cases bs with
    | nil => simp [sameAll, erasedAll]
    | cons b bs => simp [sameAll, erasedAll, same_iff a b, sameAll_iff as bs]

end

end Node

/-! ## Programs -/

/-- A name with its block erased. -/
def Identifier.erased (name : Identifier) : Identifier := { name with block := .origin }

/-- A literal with its block erased. -/
def Literal.erased (literal : Literal) : Literal := { literal with block := .origin }

/-- A written type with its block erased. -/
def TypeName.erased (name : TypeName) : TypeName := { name with block := .origin }

/-- An operator with its block erased. -/
def Operator.erased (operator : Operator) : Operator := { operator with block := .origin }

@[simp]
theorem Identifier.node_erased (name : Identifier) : name.erased.node = name.node.erased := rfl

@[simp]
theorem Literal.node_erased (literal : Literal) : literal.erased.node = literal.node.erased := rfl

@[simp]
theorem TypeName.node_erased (name : TypeName) : name.erased.node = name.node.erased := rfl

@[simp]
theorem Operator.node_erased (operator : Operator) :
    operator.erased.node = operator.node.erased := rfl

/-- An expression with all its blocks erased. -/
def Expr.erased : Expr → Expr
  | .value literal _ => .value literal.erased .origin
  | .identifier name _ => .identifier name.erased .origin
  | .unary operator operand _ => .unary operator.erased operand.erased .origin
  | .binary left operator right _ => .binary left.erased operator.erased right.erased .origin
  | .parenthesis inner _ => .parenthesis inner.erased .origin
  | .unknown node => .unknown node.erased

/-- A declaration with all its blocks erased. -/
def Declaration.erased : Declaration → Declaration
  | .nil _ => .nil .origin
  | .variable name type initial _ => .variable name.erased type.erased initial.erased .origin
  | .constant name type value _ => .constant name.erased type.erased value.erased .origin
  | .group first second _ => .group first.erased second.erased .origin
  | .unknown node => .unknown node.erased

/-- A command with all its blocks erased. -/
def Command.erased : Command → Command
  | .nil _ => .nil .origin
  | .scope declaration body _ => .scope declaration.erased body.erased .origin
  | .sequence first second _ => .sequence first.erased second.erased .origin
  | .assign target value _ => .assign target.erased value.erased .origin
  | .branch condition body _ => .branch condition.erased body.erased .origin
  | .branchElse condition body otherwise _ =>
    .branchElse condition.erased body.erased otherwise.erased .origin
  | .loop condition body _ => .loop condition.erased body.erased .origin
  | .print value _ => .print value.erased .origin
  | .unknown node => .unknown node.erased

@[simp]
theorem Expr.block_erased (e : Expr) : e.erased.block = .origin := by
  cases e <;> first | rfl | exact Node.block_erased _

@[simp]
theorem Declaration.block_erased (declaration : Declaration) :
    declaration.erased.block = .origin := by
  cases declaration <;> first | rfl | exact Node.block_erased _

@[simp]
theorem Command.block_erased (command : Command) : command.erased.block = .origin := by
  cases command <;> first | rfl | exact Node.block_erased _

@[simp]
theorem Expr.erased_erased (e : Expr) : e.erased.erased = e.erased := by
  induction e with
  | value | identifier => rfl
  | unary _ _ _ ih =>
    simp only [Expr.erased, ih]
    rfl
  | binary _ _ _ _ ihLeft ihRight =>
    simp only [Expr.erased, ihLeft, ihRight]
    rfl
  | parenthesis _ _ ih => simp only [Expr.erased, ih]
  | unknown node => simp only [Expr.erased, Node.erased_erased]

@[simp]
theorem Declaration.erased_erased (declaration : Declaration) :
    declaration.erased.erased = declaration.erased := by
  induction declaration with
  | nil => rfl
  | «variable» | constant =>
    simp only [Declaration.erased, Node.erased_erased, Expr.erased_erased]
    rfl
  | group _ _ _ ihFirst ihSecond => simp only [Declaration.erased, ihFirst, ihSecond]
  | unknown node => simp only [Declaration.erased, Node.erased_erased]

theorem Expr.node_erased (e : Expr) : e.erased.node = e.node.erased := by
  induction e with
  | value | identifier => rfl
  | unary _ _ _ ih => simp [Expr.erased, Expr.node, Node.erased, Node.erasedAll, ih]
  | binary _ _ _ _ ihLeft ihRight =>
    simp [Expr.erased, Expr.node, Node.erased, Node.erasedAll, ihLeft, ihRight]
  | parenthesis _ _ ih => simp [Expr.erased, Expr.node, Node.erased, Node.erasedAll, ih]
  | unknown => rfl

theorem Declaration.node_erased (declaration : Declaration) :
    declaration.erased.node = declaration.node.erased := by
  induction declaration with
  | nil | unknown => rfl
  | «variable» _ _ initial _ | constant _ _ initial _ =>
    simp [Declaration.erased, Declaration.node, Node.erased, Node.erasedAll, Expr.node_erased]
  | group _ _ _ ihFirst ihSecond =>
    simp [Declaration.erased, Declaration.node, Node.erased, Node.erasedAll, ihFirst, ihSecond]

theorem Command.node_erased (command : Command) : command.erased.node = command.node.erased := by
  induction command with
  | nil | unknown => rfl
  | scope _ _ _ ih =>
    simp [Command.erased, Command.node, Node.erased, Node.erasedAll, Declaration.node_erased, ih]
  | sequence _ _ _ ihFirst ihSecond =>
    simp [Command.erased, Command.node, Node.erased, Node.erasedAll, ihFirst, ihSecond]
  | assign => simp [Command.erased, Command.node, Node.erased, Node.erasedAll, Expr.node_erased]
  | branch _ _ _ ih | loop _ _ _ ih =>
    simp [Command.erased, Command.node, Node.erased, Node.erasedAll, Expr.node_erased, ih]
  | branchElse _ _ _ _ ihBody ihOtherwise =>
    simp [Command.erased, Command.node, Node.erased, Node.erasedAll, Expr.node_erased, ihBody,
      ihOtherwise]
  | print => simp [Command.erased, Command.node, Node.erased, Node.erasedAll, Expr.node_erased]

/-- Commands that are erased to one are the same program. -/
theorem Command.same_of_erased {a b : Command} (h : a.erased = b.erased) :
    a.node.same b.node = true := by
  rw [Node.same_iff, ← Command.node_erased, ← Command.node_erased, h]

/-! ## Lists of items -/

/-- An item with all its blocks erased. -/
def Item.erased : Item → Item
  | .declaration here => .declaration here.erased
  | .command here => .command here.erased

theorem Block.union_origin : Block.origin.union .origin = .origin := by decide

theorem Block.finish_origin : Block.origin.finish = .origin := rfl

theorem Declaration.erased_joined (first second : Declaration) :
    (first.joined second).erased = first.erased.joined second.erased := by
  simp [Declaration.joined, Declaration.erased, Block.union_origin]

theorem Declaration.erased_over (declaration : Declaration) (body : Command) :
    (declaration.over body).erased = declaration.erased.over body.erased := by
  simp [Declaration.over, Command.erased, Block.union_origin]

theorem Command.erased_followedBy (first : Command) (second : Option Command) :
    (first.followedBy second).erased = first.erased.followedBy (second.map Command.erased) := by
  cases second <;> simp [Command.followedBy, Command.erased, Block.union_origin]

theorem Command.erased_ofItems? (run : Option Declaration) (items : List Item) :
    (ofItems? run items).map Command.erased =
      ofItems? (run.map Declaration.erased) (items.map Item.erased) := by
  fun_induction ofItems? run items <;>
    simp_all [ofItems?, Item.erased, Declaration.erased_over, Command.erased_followedBy,
      Declaration.erased_joined, Command.erased, Block.finish_origin]

/-- **Items are folded to the same command with blocks or without.** -/
theorem Command.erased_ofItems (items : List Item) (block : Block) :
    (ofItems items block).erased = ofItems (items.map Item.erased) .origin := by
  have folded := Command.erased_ofItems? none items
  rw [Option.map_none] at folded
  unfold ofItems
  rw [← folded]
  cases ofItems? none items <;> rfl

end SmallImp
