/-
# A tree can be told from its JSON

The document of a tree records the kind of a node and the family of the kind, but neither the
class of the node nor the operands that an operator holds.  Two things make up for it.  In a
tree whose nodes have kinds of their own families the kind shows the class; and an operator
that stands beside its operands holds what its neighbours are.  So a tree as it is made, with
classes and operands (`ClassNode`), is settled by its document if it is `Proper`.

The steps: kinds are settled by their names (`Kind.ofNames?_name_family`), so nodes are by their
documents (`Node.encode_injective`); and proper trees are by their nodes
(`Proper.eq_of_nodes_eq`), since an operand is one of the siblings, which are settled before.
-/
import SmallImp.Tree.Encoding
import SmallImp.Proofs.Text.JsonText

namespace SmallImp

/-! ## Nodes from documents -/

/-- A kind is the one with its name in its family. -/
theorem Kind.ofNames?_name_family (kind : Kind) :
    Kind.ofNames? kind.family kind.name = some kind := by
  cases kind with
  | command kind => cases kind <;> rfl
  | expression kind => cases kind <;> rfl
  | declaration kind => cases kind <;> rfl
  | value ty => cases ty <;> rfl
  | type ty => cases ty <;> rfl
  | operator kind => cases kind <;> rfl

theorem Kind.eq_of_name_family {a b : Kind} (name : a.name = b.name)
    (family : a.family = b.family) : a = b := by
  have same := Kind.ofNames?_name_family b
  rw [← name, ← family, Kind.ofNames?_name_family a] at same
  exact Option.some.inj same

theorem Block.encode_injective {a b : Block} (h : a.encode = b.encode) : a = b := by
  obtain ⟨⟨firstLine, firstColumn⟩, lastLine, lastColumn⟩ := a
  obtain ⟨⟨firstLine', firstColumn'⟩, lastLine', lastColumn'⟩ := b
  simp_all [Block.encode]

/-- With the kind known, what a label says beyond it settles the label. -/
theorem Label.encode_append_inj {a b : Label} {more more' : Json} (kind : a.kind = b.kind)
    (h : a.encode ++ [("children", more)] = b.encode ++ [("children", more')]) :
    a = b ∧ more = more' := by
  cases a <;> cases b <;> simp_all [Label.encode, Label.kind]

mutual

/-- **A node is settled by its document.** -/
theorem Node.encode_injective : (a : Node) → {b : Node} → a.encode = b.encode → a = b
  | .mk label block children, .mk label' block' children', h => by
    simp only [Node.encode, List.cons_append, List.nil_append, Json.object.injEq,
      List.cons.injEq, Prod.mk.injEq, Json.string.injEq, true_and] at h
    obtain ⟨name, family, covered, said⟩ := h
    obtain rfl := Block.encode_injective covered
    obtain ⟨rfl, below⟩ := Label.encode_append_inj (Kind.eq_of_name_family name family) said
    rw [Node.encodeAll_injective children (Json.array.inj below)]

theorem Node.encodeAll_injective : (as : List Node) → {bs : List Node} →
    Node.encodeAll as = Node.encodeAll bs → as = bs
  | [], [], _ => rfl
  | [], _ :: _, h => by simp [Node.encodeAll] at h
  | _ :: _, [], h => by simp [Node.encodeAll] at h
  | a :: as, b :: bs, h => by
    obtain ⟨first, rest⟩ := List.cons.inj h
    rw [a.encode_injective first, Node.encodeAll_injective as rest]

end

/-! ## Keys -/

theorem Block.keyed_encode (block : Block) : block.encode.Keyed := by
  refine .object (by simp) ?_
  simp [Json.Keyed.integer]

theorem Label.keyed_encode (label : Label) : ∀ field ∈ label.encode, field.2.Keyed := by
  cases label <;> simp [encode, Json.Keyed.string]

/-- No payload has the key of another field. -/
theorem Label.nodup_encode (label : Label) :
    (["kind", "kind_family", "block"] ++ label.encode.map Prod.fst ++ ["children"]).Nodup := by
  cases label <;> simp [encode]

mutual

/-- **No object in the document of a node names a key twice.** -/
theorem Node.keyed_encode : (node : Node) → node.encode.Keyed
  | .mk label block children => by
    refine .object (by simpa using label.nodup_encode) ?_
    intro field hf
    simp only [List.mem_append, List.mem_cons, List.not_mem_nil, or_false] at hf
    rcases hf with ((rfl | rfl | rfl) | payload) | rfl
    · exact .string _
    · exact .string _
    · exact block.keyed_encode
    · exact label.keyed_encode field payload
    · exact .array (Node.keyed_encodeAll children)

theorem Node.keyed_encodeAll : (nodes : List Node) → ∀ item ∈ Node.encodeAll nodes, item.Keyed
  | [] => by simp [Node.encodeAll]
  | node :: nodes => List.forall_mem_cons.2 ⟨node.keyed_encode, Node.keyed_encodeAll nodes⟩

end

/-! ## Trees as they are made -/

/-- A node as it is made: its class, what it holds, and its children.  The kind of a command,
of a declaration or of an expression may be of any family; that of any other node goes with its
class.  An operator holds its operands, which are written out only where they are among the
children of the node around it. -/
inductive ClassNode where
  | command (kind : Kind) (block : Block) (children : List ClassNode)
  | declaration (kind : Kind) (block : Block) (children : List ClassNode)
  | expression (kind : Kind) (block : Block) (children : List ClassNode)
  | value (ty : Ty) (lexeme : String) (block : Block) (children : List ClassNode)
  | type (ty : Ty) (block : Block) (children : List ClassNode)
  | identifier (name : String) (block : Block) (children : List ClassNode)
  | unary (symbol : String) (operand : ClassNode) (block : Block) (children : List ClassNode)
  | binary (symbol : String) (left right : ClassNode) (block : Block)
    (children : List ClassNode)

namespace ClassNode

/-- What a node says of itself. -/
def label : ClassNode → Label
  | .command kind _ _ | .declaration kind _ _ | .expression kind _ _ => .plain kind
  | .value ty lexeme _ _ => .value ty lexeme
  | .type ty _ _ => .type ty
  | .identifier name _ _ => .identifier name
  | .unary symbol _ _ _ => .operator .unary symbol
  | .binary symbol _ _ _ _ => .operator .binary symbol

/-- The block of a node. -/
def block : ClassNode → Block
  | .command _ block _ | .declaration _ block _ | .expression _ block _ | .value _ _ block _
  | .type _ block _ | .identifier _ block _ | .unary _ _ block _ | .binary _ _ _ block _ => block

/-- The children of a node. -/
def children : ClassNode → List ClassNode
  | .command _ _ children | .declaration _ _ children | .expression _ _ children
  | .value _ _ _ children | .type _ _ children | .identifier _ _ children
  | .unary _ _ _ children | .binary _ _ _ _ children => children

/-- The operands that a node holds. -/
def operands : ClassNode → List ClassNode
  | .unary _ operand _ _ => [operand]
  | .binary _ left right _ _ => [left, right]
  | _ => []

mutual

/-- The node without its class and its operands. -/
def node : ClassNode → Node
  | .command kind block children => .mk (.plain kind) block (nodes children)
  | .declaration kind block children => .mk (.plain kind) block (nodes children)
  | .expression kind block children => .mk (.plain kind) block (nodes children)
  | .value ty lexeme block children => .mk (.value ty lexeme) block (nodes children)
  | .type ty block children => .mk (.type ty) block (nodes children)
  | .identifier name block children => .mk (.identifier name) block (nodes children)
  | .unary symbol _ block children => .mk (.operator .unary symbol) block (nodes children)
  | .binary symbol _ _ block children => .mk (.operator .binary symbol) block (nodes children)

/-- The nodes of a list. -/
def nodes : List ClassNode → List Node
  | [] => []
  | child :: children => child.node :: nodes children

end

/-- The kind of a node is of the family of its class. -/
def OwnKind : ClassNode → Prop
  | .command kind _ _ => ∃ own, kind = .command own
  | .declaration kind _ _ => ∃ own, kind = .declaration own
  | .expression kind _ _ => ∃ own, kind = .expression own
  | _ => True

/-- The operators among siblings stand beside their operands: a unary operator before its
operand, a binary operator between its two. -/
structure Seated (siblings : List ClassNode) : Prop where
  unary {i : Nat} {symbol : String} {operand : ClassNode} {block : Block}
    {children : List ClassNode} (h : siblings[i]? = some (.unary symbol operand block children)) :
    siblings[i + 1]? = some operand
  binary {i : Nat} {symbol : String} {left right : ClassNode} {block : Block}
    {children : List ClassNode}
    (h : siblings[i]? = some (.binary symbol left right block children)) :
    ∃ j, i = j + 1 ∧ siblings[j]? = some left ∧ siblings[j + 2]? = some right

/-- Siblings whose kinds are of their own families and whose operators stand beside their
operands, and so everywhere below them.  A tree is proper as an only child. -/
inductive Proper : List ClassNode → Prop
  | mk {siblings : List ClassNode} (seated : Seated siblings)
      (own : ∀ node ∈ siblings, node.OwnKind)
      (below : ∀ node ∈ siblings, Proper node.children) : Proper siblings

theorem Proper.seated {siblings : List ClassNode} : Proper siblings → Seated siblings
  | .mk seated _ _ => seated

theorem Proper.own {siblings : List ClassNode} : Proper siblings → ∀ node ∈ siblings, node.OwnKind
  | .mk _ own _ => own

theorem Proper.children {siblings : List ClassNode} :
    Proper siblings → ∀ node ∈ siblings, Proper node.children
  | .mk _ _ below => below

theorem node_eq (node : ClassNode) :
    node.node = .mk node.label node.block (nodes node.children) := by
  cases node <;> rfl

theorem nodes_eq_map (siblings : List ClassNode) : nodes siblings = siblings.map node := by
  induction siblings with
  | nil => rfl
  | cons node siblings ih => rw [nodes, ih, List.map_cons]

/-- The node with a label, a block, operands and children, of the class that goes with the
label. -/
def ofParts : Label → Block → List ClassNode → List ClassNode → Option ClassNode
  | .plain (.command kind), block, [], children => some (.command (.command kind) block children)
  | .plain (.declaration kind), block, [], children =>
    some (.declaration (.declaration kind) block children)
  | .plain (.expression kind), block, [], children =>
    some (.expression (.expression kind) block children)
  | .value ty lexeme, block, [], children => some (.value ty lexeme block children)
  | .type ty, block, [], children => some (.type ty block children)
  | .identifier name, block, [], children => some (.identifier name block children)
  | .operator .unary symbol, block, [operand], children =>
    some (.unary symbol operand block children)
  | .operator .binary symbol, block, [left, right], children =>
    some (.binary symbol left right block children)
  | _, _, _, _ => none

/-- A kind of its own family shows the class. -/
theorem ofParts_of_ownKind {node : ClassNode} (own : node.OwnKind) :
    ofParts node.label node.block node.operands node.children = some node := by
  cases node with
  | command kind block children =>
    obtain ⟨kind, rfl⟩ := own
    rfl
  | declaration kind block children =>
    obtain ⟨kind, rfl⟩ := own
    rfl
  | expression kind block children =>
    obtain ⟨kind, rfl⟩ := own
    rfl
  | value | type | identifier | unary | binary => rfl

theorem eq_of_parts {a b : ClassNode} (own : a.OwnKind) (own' : b.OwnKind)
    (label : a.label = b.label) (block : a.block = b.block)
    (operands : a.operands = b.operands) (children : a.children = b.children) : a = b := by
  have whole := ofParts_of_ownKind own
  rw [label, block, operands, children, ofParts_of_ownKind own'] at whole
  exact (Option.some.inj whole).symm

/-! ## Proper trees from nodes -/

theorem sizeOf_child {node child : ClassNode} (h : child ∈ node.children) :
    sizeOf child < sizeOf node := by
  cases node <;>
    · have smaller := List.sizeOf_lt_of_mem h
      simp only [children] at smaller
      simp only [command.sizeOf_spec, declaration.sizeOf_spec, expression.sizeOf_spec,
        value.sizeOf_spec, type.sizeOf_spec, identifier.sizeOf_spec, unary.sizeOf_spec,
        binary.sizeOf_spec]
      omega

theorem sizeOf_operand {node operand : ClassNode} (h : operand ∈ node.operands) :
    sizeOf operand < sizeOf node := by
  cases node <;> simp only [operands, List.mem_cons, List.not_mem_nil, or_false] at h
  · subst h
    simp only [unary.sizeOf_spec]
    omega
  · rcases h with rfl | rfl
    · simp only [binary.sizeOf_spec]
      omega
    · simp only [binary.sizeOf_spec]
      omega

/-- What two nodes have in common when they are the same without class and operands. -/
theorem parts_of_node_eq {a b : ClassNode} (h : a.node = b.node) :
    a.label = b.label ∧ a.block = b.block ∧ nodes a.children = nodes b.children := by
  rw [node_eq, node_eq] at h
  exact Node.mk.inj h

theorem node_eq_of_nodes_eq {as bs : List ClassNode} (same : nodes as = nodes bs) {i : Nat}
    {a b : ClassNode} (ha : as[i]? = some a) (hb : bs[i]? = some b) : a.node = b.node := by
  have h := congrArg (·[i]?) same
  simpa [nodes_eq_map, ha, hb] using h

/-- Two operators in one place, each among siblings that stand beside it, hold the same operands
if those siblings are the same. -/
theorem operands_eq {as bs : List ClassNode} (seated : Seated as) (seated' : Seated bs)
    {i : Nat} {a b : ClassNode} (ha : as[i]? = some a) (hb : bs[i]? = some b)
    (label : a.label = b.label)
    (known : ∀ {j : Nat} {c d : ClassNode}, as[j]? = some c → bs[j]? = some d →
      c ∈ a.operands → c = d) :
    a.operands = b.operands := by
  cases a with
  | unary symbol operand block children =>
    cases b with
    | unary symbol' operand' block' children' =>
      rw [known (seated.unary ha) (seated'.unary hb) (by simp [operands])]
      rfl
    | _ => simp [ClassNode.label] at label
  | binary symbol left right block children =>
    cases b with
    | binary symbol' left' right' block' children' =>
      obtain ⟨j, rfl, before, after⟩ := seated.binary ha
      obtain ⟨k, same, before', after'⟩ := seated'.binary hb
      obtain rfl : j = k := by omega
      rw [known before before' (by simp [operands]), known after after' (by simp [operands])]
      rfl
    | _ => simp [ClassNode.label] at label
  | _ => cases b <;> first | rfl | simp [ClassNode.label] at label

theorem eq_of_nodes_eq_of {as bs : List ClassNode} (same : nodes as = nodes bs)
    (each : ∀ {i : Nat} {a b : ClassNode}, as[i]? = some a → bs[i]? = some b → a = b) : as = bs := by
  have length : as.length = bs.length := by
    simpa [nodes_eq_map] using congrArg List.length same
  refine List.ext_getElem length fun i inside inside' => ?_
  exact each (List.getElem?_eq_getElem inside) (List.getElem?_eq_getElem inside')

/-- **Two nodes in one place of proper siblings are the same**, by induction on the size of the
first: its children are smaller, and so are its operands, which stand beside it. -/
theorem Proper.eq_of_getElem? (size : Nat) : ∀ {as bs : List ClassNode}, Proper as → Proper bs →
    nodes as = nodes bs → ∀ {i : Nat} {a b : ClassNode}, as[i]? = some a → bs[i]? = some b →
      sizeOf a < size → a = b := by
  induction size with
  | zero =>
    intro as bs _ _ _ i a b _ _ small
    omega
  | succ size ih =>
    intro as bs proper proper' same i a b ha hb small
    obtain ⟨label, block, below⟩ := parts_of_node_eq (node_eq_of_nodes_eq same ha hb)
    have children : a.children = b.children := by
      refine eq_of_nodes_eq_of below fun {j c d} hc hd => ?_
      have smaller := sizeOf_child (List.mem_of_getElem? hc)
      exact ih (proper.children a (List.mem_of_getElem? ha))
        (proper'.children b (List.mem_of_getElem? hb)) below hc hd (by omega)
    have operands : a.operands = b.operands := by
      refine operands_eq proper.seated proper'.seated ha hb label fun {j c d} hc hd held => ?_
      have smaller := sizeOf_operand held
      exact ih proper proper' same hc hd (by omega)
    exact eq_of_parts (proper.own a (List.mem_of_getElem? ha))
      (proper'.own b (List.mem_of_getElem? hb)) label block operands children

/-- **Proper trees are settled by their nodes.** -/
theorem Proper.eq_of_node_eq {a b : ClassNode} (proper : Proper [a]) (proper' : Proper [b])
    (same : a.node = b.node) : a = b := by
  have alone : nodes [a] = nodes [b] := by
    rw [nodes_eq_map, nodes_eq_map, List.map_singleton, List.map_singleton, same]
  exact proper.eq_of_getElem? _ proper' alone (i := 0) rfl rfl (Nat.lt_succ_self _)

end ClassNode

end SmallImp
