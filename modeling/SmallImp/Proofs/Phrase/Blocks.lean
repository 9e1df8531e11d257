/-
# Trees that stand where they were written

In a tree made of the tokens of a source each node is to be placed (`Node.Placed`): its block goes
from its start to its end and covers those of its children, an expression goes over just the
tokens it is spelled with, and at the block of a leaf the source has the word of the leaf.  A tree
is sound if all its nodes are placed (`Node.Sound`).

Expressions are sound by the tokens that spell them (`Level.Spells.sound`): the block is the span
of the tokens, and what part of the tokens spells lies within it.  Lists of items are folded over
the unions of blocks.  The items stand in order, so a union goes from the first to the last, and
what they are folded to is sound (`Command.sound_ofItems`).
-/
import SmallImp.Proofs.Phrase.Places
import SmallImp.Proofs.Phrase.Shape
import SmallImp.Proofs.Token.Blocks
import SmallImp.Proofs.Tree.Nodes
import SmallImp.Proofs.Tree.Sequence

namespace SmallImp

/-! ## What is asked of nodes -/

/-- Whether a node is an expression, spelled with tokens of a source that stand in a row, and
covers just these. -/
def Node.Spans (source : String) (node : Node) : Prop :=
  ∃ (ℓ : Level) (e : Expr) (tokens : List Token), e.node = node ∧ ℓ.Spells e tokens ∧
    tokens <:+: tokensOf source ∧ node.block = Token.span tokens

/-- Whether a node stands where it was written: it is nested, an expression covers just its own
tokens, and the word of a leaf is the text at its block. -/
structure Node.Placed (source : String) (node : Node) : Prop extends node.Nested where
  expression : ∀ kind, node.label = .plain (.expression kind) → node.Spans source
  word : ∀ word ∈ node.label.word?, node.block.text source = word

/-- Whether all nodes of a tree stand where they were written. -/
def Node.Sound (source : String) (node : Node) : Prop := ∀ inner ∈ node.nodes, inner.Placed source

/-- Whether a tree is sound and lies within a block. -/
structure Node.SoundWithin (source : String) (outer : Block) (node : Node) : Prop where
  within : node.block.Within outer
  sound : node.Sound source

variable {source : String}

/-- A command or a declaration is sound if its children are, within its block. -/
theorem Node.sound_of_children {label : Label} {block : Block} {children : List Node}
    (inner : label.isInner = true) (ordered : block.first ≤ block.last)
    (all : ∀ child ∈ children, child.SoundWithin source block) :
    (Node.mk label block children).Sound source := by
  refine (forall_mem_nodes _).2 ⟨?_, fun child mem => (all child mem).sound⟩
  exact {
    ordered
    within := fun child mem => (all child mem).within
    expression := by
      rintro kind (rfl : label = _)
      cases inner
    word := by
      intro word mem
      rw [Node.label, Label.word?_of_isInner inner] at mem
      cases mem }

theorem Node.Sound.ordered {node : Node} (h : node.Sound source) :
    node.block.first ≤ node.block.last :=
  ((forall_mem_nodes node).1 h).1.ordered

/-- A command or a declaration without children is sound. -/
theorem Node.sound_leaf_of_isInner {label : Label} {block : Block} (inner : label.isInner = true)
    (ordered : block.first ≤ block.last) : (Node.leaf label block).Sound source :=
  sound_of_children inner ordered (List.forall_mem_nil _)

/-- A node over the union of its two children is sound if they are. -/
theorem Node.sound_pair (label : Label) {a b : Node} (inner : label.isInner = true)
    (first : a.Sound source) (second : b.Sound source) :
    (Node.mk label (a.block.union b.block) [a, b]).Sound source := by
  have left := a.block.within_union_left b.block
  have right := a.block.within_union_right b.block
  exact sound_of_children inner (left.first.trans (first.ordered.trans left.last))
    (List.forall_mem_cons.2 ⟨⟨left, first⟩, List.forall_mem_singleton.2 ⟨right, second⟩⟩)

/-- The end of an expression within a block is within it. -/
theorem Expr.finish_within {e : Expr} {outer : Block} (h : e.node.SoundWithin source outer) :
    e.block.finish.Within outer := by
  have finish := h.within.finish h.sound.ordered
  rwa [e.block_node] at finish

/-- The end of a command within a block is within it. -/
theorem Command.finish_within {command : Command} {outer : Block}
    (h : command.node.SoundWithin source outer) : command.block.finish.Within outer := by
  have finish := h.within.finish h.sound.ordered
  rwa [command.block_node] at finish

/-! ## Leaves -/

/-- A leaf made of a token is sound if it has the text of the token. -/
theorem sound_leaf {token : Token} (label : Label) (mem : token ∈ tokensOf source)
    (proper : token.terminal ≠ .separator) (word : label.word? = some token.text) :
    (Node.leaf label token.block).Sound source := by
  refine (Node.forall_mem_nodes _).2 ⟨?_, List.forall_mem_nil _⟩
  exact {
    ordered := (inOrder_tokensOf source).ordered _ (List.mem_map_of_mem mem)
    within := List.forall_mem_nil _
    expression := by
      rintro kind (rfl : label = _)
      cases word
    word := by
      rintro _ (found : label.word? = _)
      rw [word] at found
      obtain rfl := Option.some.inj found
      exact text_of_mem_tokensOf mem proper }

/-! ## Expressions -/

section Expressions
variable {ℓ : Level} {e : Expr} {tokens : List Token}

theorem Level.Spells.ne_nil (h : ℓ.Spells e tokens) : tokens ≠ [] := by
  induction h with
  | tighter _ _ ih => exact ih
  | number | boolean | name | parenthesis | leading => exact List.cons_ne_nil _ _
  | binary => simp

/-- **An expression goes from its first token to its last.** -/
theorem Level.Spells.block_eq (h : ℓ.Spells e tokens) : e.block = Token.span tokens := by
  induction h with
  | number | boolean | name => rfl
  | @parenthesis opening closing _ tokens =>
    rw [Token.span_cons _ (by simp)]
    cases tokens with
    | nil => rfl
    | cons => rw [Token.span_append (List.cons_ne_nil _ _) (List.cons_ne_nil _ _)]; rfl
  | tighter _ _ ih => exact ih
  | leading _ _ operand ih => rw [Token.span_cons _ operand.ne_nil, ← ih]; rfl
  | binary _ left _ right ihLeft ihRight =>
    rw [Token.span_append left.ne_nil (List.cons_ne_nil _ _), Token.span_cons _ right.ne_nil,
      ← ihLeft, ← ihRight]
    rfl

/-- The tokens of an expression end where it does. -/
theorem Level.Spells.endFrom_eq {place : Position} (h : ℓ.Spells e tokens) :
    Token.endFrom place tokens = e.block.last := by
  rw [Token.endFrom_eq h.ne_nil, h.block_eq]

/-- An expression lies within what covers its tokens. -/
theorem Level.Spells.within {outer : Block} (h : ℓ.Spells e tokens)
    (covered : ∀ token ∈ tokens, token.block.Within outer) : e.node.block.Within outer := by
  rw [e.block_node, h.block_eq]
  exact Token.span_within h.ne_nil covered

theorem Level.Spells.word?_eq_none (h : ℓ.Spells e tokens) : e.node.label.word? = none := by
  induction h with
  | tighter _ _ ih => exact ih
  | number | boolean | name | parenthesis | leading | binary => rfl

/-- The node of an expression is sound if its children are, within the tokens of it. -/
theorem Level.Spells.sound_of_children (h : ℓ.Spells e tokens)
    (inside : tokens <:+: tokensOf source)
    (all : ∀ child ∈ e.node.children, child.SoundWithin source (Token.span tokens)) :
    e.node.Sound source := by
  have block : e.node.block = Token.span tokens := e.block_node.trans h.block_eq
  refine (Node.forall_mem_nodes _).2 ⟨?_, fun child mem => (all child mem).sound⟩
  exact {
    ordered := block ▸ ordered_span inside
    within := fun child mem => block ▸ (all child mem).within
    expression := fun _ _ => ⟨ℓ, e, tokens, rfl, h, inside, block⟩
    word := by
      intro word mem
      rw [h.word?_eq_none] at mem
      cases mem }

/-- An expression of one token is sound if below it is just the leaf made of the token. -/
theorem Level.Spells.sound_of_leaf {token : Token} {label : Label} (h : ℓ.Spells e [token])
    (inside : [token] <:+: tokensOf source) (proper : token.terminal ≠ .separator)
    (leaf : e.node.children = [.leaf label token.block]) (word : label.word? = some token.text) :
    e.node.Sound source := by
  refine h.sound_of_children inside ?_
  rw [leaf]
  exact List.forall_mem_singleton.2
    ⟨Block.Within.rfl, sound_leaf label (infix_of_cons inside).1 proper word⟩

/-- **The nodes of an expression stand where they were written.** -/
theorem Level.Spells.sound (h : ℓ.Spells e tokens) (inside : tokens <:+: tokensOf source) :
    e.node.Sound source := by
  induction h with
  | number here => exact (Spells.number here).sound_of_leaf inside (by simp [here]) rfl rfl
  | @boolean token here =>
    have proper : token.terminal ≠ .separator := by rcases here with here | here <;> simp [here]
    exact (Spells.boolean here).sound_of_leaf inside proper rfl rfl
  | name here => exact (Spells.name here).sound_of_leaf inside (by simp [here]) rfl rfl
  | parenthesis opens spells closes ih =>
    have covered := within_span inside
    obtain ⟨-, rest⟩ := infix_of_cons inside
    obtain ⟨inner, -⟩ := infix_of_append rest
    exact (Spells.parenthesis opens spells closes).sound_of_children inside
      (List.forall_mem_singleton.2
        ⟨spells.within fun token mem => covered token (by simp [mem]), ih inner⟩)
  | tighter _ _ ih => exact ih inside
  | @leading ℓ operator operand tokens leading here spells ih =>
    have covered := within_span inside
    obtain ⟨mem, rest⟩ := infix_of_cons inside
    have leaf := sound_leaf (.operator .unary operator.text) mem
      (ne_separator_of_hasOperator here) rfl
    exact (Spells.leading leading here spells).sound_of_children inside
      (List.forall_mem_cons.2 ⟨⟨covered operator (by simp), leaf⟩, List.forall_mem_singleton.2
        ⟨spells.within fun token mem => covered token (by simp [mem]), ih rest⟩⟩)
  | @binary ℓ left right operator before after binary spells here spells' ih ih' =>
    have covered := within_span inside
    obtain ⟨first, rest⟩ := infix_of_append inside
    obtain ⟨mem, second⟩ := infix_of_cons rest
    have leaf := sound_leaf (.operator .binary operator.text) mem
      (ne_separator_of_hasOperator here) rfl
    exact (Spells.binary binary spells here spells').sound_of_children inside
      (List.forall_mem_cons.2
        ⟨⟨spells.within fun token mem => covered token (by simp [mem]), ih first⟩,
          List.forall_mem_cons.2 ⟨⟨covered operator (by simp), leaf⟩, List.forall_mem_singleton.2
            ⟨spells'.within fun token mem => covered token (by simp [mem]), ih' second⟩⟩⟩)

theorem Level.Spells.soundWithin {outer : Block} (h : ℓ.Spells e tokens)
    (inside : tokens <:+: tokensOf source) (covered : ∀ token ∈ tokens, token.block.Within outer) :
    e.node.SoundWithin source outer :=
  ⟨h.within covered, h.sound inside⟩

end Expressions

/-! ## Lists of items -/

/-- The node of an item. -/
def Item.node : Item → Node
  | .declaration here => here.node
  | .command here => here.node

section Folding
variable {items : List Item}

/-- The scope of a declaration over a command is sound if both are. -/
theorem Declaration.sound_over {declaration : Declaration} {body : Command}
    (firstly : declaration.node.Sound source) (secondly : body.node.Sound source) :
    (declaration.over body).node.Sound source := by
  have pair := Node.sound_pair (.plain (.command .scope)) rfl firstly secondly
  rwa [declaration.block_node, body.block_node] at pair

/-- A command and what follows it are sound if both are, and go over the blocks of both. -/
theorem Command.sound_followedBy {first : Command} {second : Option Command} {rest : List Block}
    (order : Block.InOrder (first.block :: rest)) (firstly : first.node.Sound source)
    (secondly : ∀ command ∈ second, command.node.Sound source ∧ command.block = .hull rest)
    (ends : second = none ↔ rest = []) :
    (first.followedBy second).node.Sound source ∧
      (first.followedBy second).block = .hull (first.block :: rest) := by
  cases second with
  | none =>
    rw [ends.1 rfl]
    exact ⟨firstly, rfl⟩
  | some command =>
    obtain ⟨sound, block⟩ := secondly command rfl
    have nonempty : rest ≠ [] := fun empty => absurd (ends.2 empty) (Option.some_ne_none command)
    have pair := Node.sound_pair (.plain (.command .sequence)) rfl firstly sound
    rw [first.block_node, command.block_node] at pair
    refine ⟨pair, ?_⟩
    rw [(order.collapse nonempty).2, ← block]
    rfl

/-- A run of declarations and one more, taken as one. -/
theorem Declaration.inOrder_joined {run next : Declaration} {rest : List Block}
    (order : Block.InOrder (run.block :: next.block :: rest)) :
    Block.InOrder ((run.joined next).block :: rest) ∧
      Block.hull ((run.joined next).block :: rest) = .hull (run.block :: next.block :: rest) := by
  have pair : Block.InOrder [run.block, next.block] := order.sublist (by simp)
  have union : (run.joined next).block = .hull [run.block, next.block] := pair.union_eq
  rw [union]
  change Block.InOrder ([run.block, next.block] ++ rest) at order
  refine ⟨.cons pair.ordered_hull (order.sublist (by simp)) fun nonempty => ?_, ?_⟩
  · exact order.last_hull_le (List.cons_ne_nil _ _) nonempty
  · cases rest <;> rfl

/-- **What items in order are folded to is sound**, and goes over the blocks of the items. -/
theorem Command.sound_ofItems? {run : Option Declaration}
    (started : ∀ declaration ∈ run, declaration.node.Sound source)
    (all : ∀ item ∈ items, item.node.Sound source)
    (order : Block.InOrder (run.toList.map Declaration.block ++ Item.blocks items)) :
    ∀ command ∈ ofItems? run items, command.node.Sound source ∧
      command.block = .hull (run.toList.map Declaration.block ++ Item.blocks items) := by
  fun_induction ofItems? run items with
  | case1 => simp
  | case2 run =>
    rintro _ ⟨⟩
    have sound := started run rfl
    refine ⟨Declaration.sound_over sound (Node.sound_leaf_of_isInner rfl le_rfl), ?_⟩
    have ordered : run.block.first ≤ run.block.last := order.ordered _ (by simp)
    exact Block.union_eq_through ordered le_rfl
  | case3 first rest ih =>
    obtain ⟨here, later⟩ := List.forall_mem_cons.1 all
    rintro _ ⟨⟩
    exact sound_followedBy order here
      (ih (by simp) later (order.sublist (List.sublist_cons_self first.block _)))
      (by simp [ofItems?_eq_none])
  | case4 run first rest ih =>
    obtain ⟨here, later⟩ := List.forall_mem_cons.1 all
    have tail : Block.InOrder (first.block :: Item.blocks rest) :=
      order.sublist (List.sublist_cons_self run.block _)
    obtain ⟨sound, block⟩ := sound_followedBy tail here
      (ih (by simp) later (tail.sublist (List.sublist_cons_self first.block _)))
      (by simp [ofItems?_eq_none, Item.blocks])
    rintro _ ⟨⟩
    refine ⟨Declaration.sound_over (started run rfl) sound, ?_⟩
    rw [Declaration.over, Command.block, block]
    exact (order.collapse (List.cons_ne_nil _ _)).2.symm
  | case5 first rest ih =>
    obtain ⟨here, later⟩ := List.forall_mem_cons.1 all
    exact ih (by rintro _ ⟨⟩; exact here) later order
  | case6 run next rest ih =>
    obtain ⟨here, later⟩ := List.forall_mem_cons.1 all
    obtain ⟨order, same⟩ := Declaration.inOrder_joined order
    have joined := Node.sound_pair (.plain (.declaration .group)) rfl
      (started run rfl) here
    change (Node.mk _ (run.node.block.union next.node.block) _).Sound source at joined
    rw [run.block_node, next.block_node] at joined
    intro command mem
    obtain ⟨sound, block⟩ := ih (by rintro _ ⟨⟩; exact joined) later order command mem
    exact ⟨sound, block.trans same⟩

/-- What a list of items in order becomes is sound; for no items it is the empty block given. -/
theorem Command.sound_ofItems {block : Block} (ordered : block.first ≤ block.last)
    (all : ∀ item ∈ items, item.node.Sound source) (order : Block.InOrder (Item.blocks items)) :
    (ofItems items block).node.Sound source ∧
      (ofItems items block).block = if items = [] then block else .hull (Item.blocks items) := by
  rw [ofItems]
  cases folded : ofItems? none items with
  | none =>
    rw [if_pos (ofItems?_eq_none.1 folded).2]
    exact ⟨Node.sound_leaf_of_isInner rfl ordered, rfl⟩
  | some command =>
    have nonempty : items ≠ [] := by
      rintro rfl
      cases folded
    rw [if_neg nonempty]
    have started : ∀ declaration ∈ (none : Option Declaration), declaration.node.Sound source := by
      simp
    exact sound_ofItems? started all order command folded

end Folding

end SmallImp
