/-
# The JSON of a program

A node that is laid out is the node of a proper tree (`Node.Laid.exists_proper`): the operators
among its children stand beside their operands, and hold them.  So the trees of programs are
among those that can be told from their JSON, and `dump_faithful` holds all that is said of the
JSON of a tree: the characters of the text, what it says by the grammar, and that it leaves
nothing out.
-/
import SmallImp.Proofs.Phrase.Shape
import SmallImp.Proofs.Tree.Encoding

namespace SmallImp

namespace ClassNode

/-! ## Making proper trees -/

theorem Proper.operands_eq_nil {node : ClassNode} (h : Proper [node]) : node.operands = [] := by
  cases node with
  | unary =>
    have beside := h.seated.unary (i := 0) rfl
    simp at beside
  | binary =>
    obtain ⟨j, before, -⟩ := h.seated.binary (i := 0) rfl
    omega
  | _ => rfl

/-- Siblings without operators among them are seated. -/
theorem seated_of_operands_eq_nil {siblings : List ClassNode}
    (h : ∀ node ∈ siblings, node.operands = []) : Seated siblings := by
  constructor
  · intro i symbol operand block children found
    have free := h _ (List.mem_of_getElem? found)
    simp [operands] at free
  · intro i symbol left right block children found
    have free := h _ (List.mem_of_getElem? found)
    simp [operands] at free

/-- A node that is no operator is proper alone if its kind and its children are. -/
theorem proper_singleton {node : ClassNode} (own : node.OwnKind) (free : node.operands = [])
    (below : Proper node.children) : Proper [node] :=
  .mk (seated_of_operands_eq_nil (List.forall_mem_singleton.2 free))
    (List.forall_mem_singleton.2 own) (List.forall_mem_singleton.2 below)

/-- Nodes that are proper alone are proper as siblings. -/
theorem proper_of_forall {siblings : List ClassNode} (h : ∀ node ∈ siblings, Proper [node]) :
    Proper siblings :=
  .mk (seated_of_operands_eq_nil fun node hn => (h node hn).operands_eq_nil)
    (fun node hn => (h node hn).own node (List.mem_singleton_self node))
    (fun node hn => (h node hn).children node (List.mem_singleton_self node))

theorem proper_nil : Proper [] := proper_of_forall (by simp)

/-- A unary operator is proper in front of the operand that it holds. -/
theorem proper_unary {symbol : String} {operand : ClassNode} {block : Block}
    (h : Proper [operand]) : Proper [.unary symbol operand block [], operand] := by
  have free := h.operands_eq_nil
  refine .mk ⟨?_, ?_⟩ ?_ ?_
  · intro i symbol' operand' block' children' found
    rcases i with _ | _ | i
    · obtain ⟨-, rfl, -⟩ := ClassNode.unary.inj (Option.some.inj found)
      rfl
    · obtain rfl := Option.some.inj found
      simp [operands] at free
    · simp at found
  · intro i symbol' left right block' children' found
    rcases i with _ | _ | i
    · simp at found
    · obtain rfl := Option.some.inj found
      simp [operands] at free
    · simp at found
  · exact List.forall_mem_cons.2 ⟨trivial, h.own⟩
  · exact List.forall_mem_cons.2 ⟨proper_nil, h.children⟩

/-- A binary operator is proper between the operands that it holds. -/
theorem proper_binary {symbol : String} {left right : ClassNode} {block : Block}
    (h : Proper [left]) (h' : Proper [right]) :
    Proper [left, .binary symbol left right block [], right] := by
  have free := h.operands_eq_nil
  have free' := h'.operands_eq_nil
  refine .mk ⟨?_, ?_⟩ ?_ ?_
  · intro i symbol' operand' block' children' found
    rcases i with _ | _ | _ | i
    · obtain rfl := Option.some.inj found
      simp [operands] at free
    · simp at found
    · obtain rfl := Option.some.inj found
      simp [operands] at free'
    · simp at found
  · intro i symbol' left' right' block' children' found
    rcases i with _ | _ | _ | i
    · obtain rfl := Option.some.inj found
      simp [operands] at free
    · obtain ⟨-, rfl, rfl, -⟩ := ClassNode.binary.inj (Option.some.inj found)
      exact ⟨0, rfl, rfl, rfl⟩
    · obtain rfl := Option.some.inj found
      simp [operands] at free'
    · simp at found
  · exact List.forall_mem_cons.2 ⟨h.own left (by simp), List.forall_mem_cons.2 ⟨trivial, h'.own⟩⟩
  · exact List.forall_mem_cons.2
      ⟨h.children left (by simp), List.forall_mem_cons.2 ⟨proper_nil, h'.children⟩⟩

end ClassNode

/-! ## Nodes that are laid out -/

/-- Whether a class is one of operators. -/
def NodeClass.isOperator : NodeClass → Bool
  | .unaryOperator | .binaryOperator => true
  | _ => false

/-- The class of the operators of a kind. -/
def OperatorKind.nodeClass : OperatorKind → NodeClass
  | .unary => .unaryOperator
  | .binary => .binaryOperator

/-- Only expressions with an operator have an operator among their children. -/
theorem Label.layout_cases (label : Label) :
    label = .plain (.expression .unary) ∨ label = .plain (.expression .binary) ∨
      ∀ cls ∈ label.layout, cls.isOperator = false := by
  cases label with
  | plain kind =>
    cases kind with
    | command kind => cases kind <;> exact .inr (.inr (by decide))
    | declaration kind => cases kind <;> exact .inr (.inr (by decide))
    | expression kind =>
      cases kind with
      | unary => exact .inl rfl
      | binary => exact .inr (.inl rfl)
      | value | identifier | parenthesis => exact .inr (.inr (by decide))
    | value | type | operator => exact .inr (.inr (by simp [layout]))
  | value | type | identifier | operator => exact .inr (.inr (by simp [layout]))

namespace Node

theorem LaidAll.eq_nil {nodes : List Node} (h : LaidAll [] nodes) : nodes = [] := by
  cases nodes with
  | nil => rfl
  | cons => exact h.elim

/-- An operator that is laid out is of its kind and has no children. -/
theorem Laid.exists_operator {k : OperatorKind} {node : Node} (h : node.Laid k.nodeClass) :
    ∃ symbol block, node = .mk (.operator k symbol) block [] := by
  obtain ⟨label, block, children⟩ := node
  obtain ⟨own, -, laid⟩ := h
  cases label with
  | operator kind symbol =>
    obtain rfl : kind = k := by
      cases kind <;> cases k <;> first | rfl | simp [Label.nodeClass?, OperatorKind.nodeClass] at own
    exact ⟨symbol, block, by rw [LaidAll.eq_nil laid]⟩
  | plain kind =>
    cases kind <;> cases k <;> simp [Label.nodeClass?, OperatorKind.nodeClass] at own
  | value | type | identifier =>
    cases k <;> simp [Label.nodeClass?, OperatorKind.nodeClass] at own

/-- Over proper children any label but an operator's is that of a proper tree. -/
theorem exists_proper_of_children {label : Label} {cls : NodeClass} (block : Block)
    {children : List ClassNode} (own : label.nodeClass? = some cls)
    (free : cls.isOperator = false) (below : ClassNode.Proper children) :
    ∃ tree : ClassNode, tree.node = .mk label block (ClassNode.nodes children) ∧
      ClassNode.Proper [tree] := by
  cases label with
  | plain kind =>
    cases kind with
    | command kind =>
      exact ⟨.command _ block children, rfl, ClassNode.proper_singleton ⟨kind, rfl⟩ rfl below⟩
    | declaration kind =>
      exact ⟨.declaration _ block children, rfl,
        ClassNode.proper_singleton ⟨kind, rfl⟩ rfl below⟩
    | expression kind =>
      exact ⟨.expression _ block children, rfl,
        ClassNode.proper_singleton ⟨kind, rfl⟩ rfl below⟩
    | value | type | operator => simp [Label.nodeClass?] at own
  | value ty lexeme =>
    exact ⟨.value ty lexeme block children, rfl, ClassNode.proper_singleton trivial rfl below⟩
  | type ty => exact ⟨.type ty block children, rfl, ClassNode.proper_singleton trivial rfl below⟩
  | identifier name =>
    exact ⟨.identifier name block children, rfl, ClassNode.proper_singleton trivial rfl below⟩
  | operator kind =>
    cases kind <;> obtain rfl := Option.some.inj own <;> simp [NodeClass.isOperator] at free

mutual

/-- **A node that is laid out is the node of a proper tree**, unless it is an operator. -/
theorem Laid.exists_proper : (node : Node) → {cls : NodeClass} → node.Laid cls →
    cls.isOperator = false → ∃ tree : ClassNode, tree.node = node ∧ ClassNode.Proper [tree]
  | .mk label block children, cls, ⟨own, _, laid⟩, free => by
    rcases label.layout_cases with rfl | rfl | plain
    · match children, laid with
      | [operator, operand], laid =>
        obtain ⟨symbol, place, rfl⟩ := Laid.exists_operator (k := .unary) laid.1
        obtain ⟨tree, rfl, proper⟩ := Laid.exists_proper operand laid.2.1 rfl
        exact exists_proper_of_children block own free (ClassNode.proper_unary proper)
    · match children, laid with
      | [left, operator, right], laid =>
        obtain ⟨tree, rfl, proper⟩ := Laid.exists_proper left laid.1 rfl
        obtain ⟨symbol, place, rfl⟩ := Laid.exists_operator (k := .binary) laid.2.1
        obtain ⟨tree', rfl, proper'⟩ := Laid.exists_proper right laid.2.2.1 rfl
        exact exists_proper_of_children block own free (ClassNode.proper_binary proper proper')
    · obtain ⟨trees, rfl, proper⟩ := LaidAll.exists_proper children laid plain
      exact exists_proper_of_children block own free (ClassNode.proper_of_forall proper)

theorem LaidAll.exists_proper : (nodes : List Node) → {classes : List NodeClass} →
    LaidAll classes nodes → (∀ cls ∈ classes, cls.isOperator = false) →
      ∃ trees, ClassNode.nodes trees = nodes ∧ ∀ tree ∈ trees, ClassNode.Proper [tree]
  | [], [], _, _ => ⟨[], rfl, by simp⟩
  | node :: nodes, cls :: classes, h, free => by
    obtain ⟨tree, rfl, proper⟩ := Laid.exists_proper node h.1 (free cls (by simp))
    obtain ⟨trees, rfl, all⟩ :=
      LaidAll.exists_proper nodes h.2 fun cls hc => free cls (List.mem_cons_of_mem _ hc)
    exact ⟨tree :: trees, rfl, List.forall_mem_cons.2 ⟨proper, all⟩⟩

end

end Node

/-- **The tree of a program is proper.** -/
theorem parse_proper {source : String} {program : Command} (accepted : parse source = .ok program) :
    ∃ tree : ClassNode, tree.node = program.node ∧ ClassNode.Proper [tree] :=
  Node.Laid.exists_proper _ (parse_shaped accepted).laid rfl

/-! ## The JSON is faithful -/

/-- A negated literal as it is made: the operator holds the operand beside it. -/
def ClassNode.negated (lexeme : String) : ClassNode :=
  let operand := .expression (.expression .value) .origin [.value .number lexeme .origin []]
  .expression (.expression .unary) .origin [.unary "-" operand .origin [], operand]

theorem ClassNode.proper_negated (lexeme : String) : Proper [negated lexeme] := by
  have literal : Proper [.value .number lexeme .origin []] :=
    proper_singleton trivial rfl proper_nil
  exact proper_singleton ⟨_, rfl⟩ rfl (proper_unary (proper_singleton ⟨_, rfl⟩ rfl literal))

/-- An operator that holds another operand than the one beside it is written all the same. -/
example :
    let one := .expression (.expression .value) .origin [.value .number "1" .origin []]
    let two := .expression (.expression .value) .origin [.value .number "2" .origin []]
    (ClassNode.expression (.expression .unary) .origin
      [.unary "-" two .origin [], one]).node.encode = (ClassNode.negated "1").node.encode :=
  rfl

end SmallImp
