/-
# The positions in the tree of a program

Blocks come about in four ways: a token has its own, a phrase goes from its first token to its
last, a list of items goes over the blocks of the items, and what stands for nothing written has
an empty block at the end of something else.  They all fit together, in the tree of every program
(`parse_placed`).

A phrase keeps the blocks of the words that its last token may be, so where it ends is read along
its tokens (`Token.endFrom`): it goes over just those (`Command.Spells.block_eq`).  The tokens of
a list are in order, and so are its items (`Items.Spells.cover`).  A body left out is the one
thing whose block is not of its own tokens, and it is within the command around it
(`Body.Spells.soundWithin`); so is all that a `for` loop is expanded to (`sound_expandedFor`).
-/
import SmallImp.Proofs.Phrase.Blocks

namespace SmallImp

variable {source : String}

/-! ## Lists of items -/

section Items
variable {tokens more : List Token} {item : Item} {rest : List Item}

/-- Whether items in order go over some tokens. -/
structure Item.Cover (items : List Item) (tokens : List Token) : Prop where
  inOrder : Block.InOrder (Item.blocks items)
  hull_eq : .hull (Item.blocks items) = Token.span tokens

/-- Whether items go over some tokens but the separator in front, if there are any. -/
def Item.CoverRest (items : List Item) (tokens : List Token) : Prop :=
  items = [] ∧ tokens = [] ∨ ∃ separator later, tokens = separator :: later ∧ later ≠ [] ∧
    items ≠ [] ∧ Item.Cover items later

/-- An item goes before those after it. -/
theorem Item.CoverRest.cons (h : Item.CoverRest rest more) (nonempty : tokens ≠ [])
    (block : item.block = Token.span tokens) (inside : tokens ++ more <:+: tokensOf source) :
    Item.Cover (item :: rest) (tokens ++ more) := by
  have ordered : item.block.first ≤ item.block.last := by
    rw [block]
    exact ordered_span (infix_of_append inside).1
  obtain ⟨rfl, rfl⟩ | ⟨separator, later, rfl, nonempty', items, cover⟩ := h
  · exact {
      inOrder := ⟨List.forall_mem_singleton.2 ordered, List.pairwise_singleton _ _⟩
      hull_eq := by rw [List.append_nil, ← block]; rfl }
  · -- leaving the separator out leaves the tokens in order
    have sub : (tokens ++ later).Sublist (tokens ++ separator :: later) := by simp
    have order := (inOrder_blocks inside).sublist (sub.map Token.block)
    rw [List.map_append] at order
    have before : (Token.span tokens).last ≤ (Token.span later).first :=
      order.last_hull_le (by simpa) (by simpa)
    rw [← block, ← cover.hull_eq] at before
    have blocks : Item.blocks rest ≠ [] := by simpa [Item.blocks] using items
    refine ⟨.cons ordered cover.inOrder fun _ => before, ?_⟩
    rw [Token.span_append nonempty (List.cons_ne_nil _ _), Token.span_cons _ nonempty', ← block,
      ← cover.hull_eq]
    exact Block.hull_cons item.block blocks

end Items

/-! ## Types -/

open Terminal

namespace Phrase

/-- The word for a type is the text of the token that names it. -/
theorem NamesType.name_eq {written : TypeName} {token : Token} (h : NamesType written token)
    (lexeme : token.IsLexeme) : written.type.name = token.text := by
  refine (lexeme.text_of_keyword ?_).symm
  cases h with
  | number here =>
    rw [here]
    exact (by decide : ("num", numWord) ∈ keywords)
  | boolean here =>
    rw [here]
    exact (by decide : ("bool", boolWord) ∈ keywords)

theorem NamesType.soundWithin {written : TypeName} {token : Token} {outer : Block}
    (h : NamesType written token) (mem : token ∈ tokensOf source)
    (covered : token.block.Within outer) : written.node.SoundWithin source outer := by
  have proper : token.terminal ≠ .separator := by cases h <;> simp [*]
  have leaf := sound_leaf (.type written.type) mem proper
    (congrArg some (h.name_eq (lexical_tokensOf source token mem proper)))
  cases h <;> exact ⟨covered, leaf⟩

/-! ## Declarations -/

/-- A name made of a token is sound. -/
theorem soundWithin_identifierOf {token : Token} {outer : Block} (mem : token ∈ tokensOf source)
    (name : token.terminal = .identifier) (covered : token.block.Within outer) :
    (identifierOf token).node.SoundWithin source outer :=
  ⟨covered, sound_leaf (.identifier token.text) mem (by simp [name]) rfl⟩

theorem SpellsFields.soundWithin {nameFirst : Bool} {name : Identifier} {written : TypeName}
    {head : List Token} {outer : Block} (h : SpellsFields nameFirst name written head)
    (inside : head <:+: tokensOf source) (covered : ∀ token ∈ head, token.block.Within outer) :
    name.node.SoundWithin source outer ∧ written.node.SoundWithin source outer := by
  cases h with
  | nameFirst here _ type | typeFirst _ type here =>
    exact ⟨soundWithin_identifierOf (inside.subset (by simp)) here (covered _ (by simp)),
      type.soundWithin (inside.subset (by simp)) (covered _ (by simp))⟩

theorem Declaration.Spells.ne_nil {declaration : Declaration} {used : List Token}
    (h : declaration.Spells used) : used ≠ [] := by
  cases h
  exact List.cons_ne_nil _ _

/-- A declaration goes from its first token to its last. -/
theorem Declaration.Spells.block_eq {declaration : Declaration} {used : List Token}
    (h : declaration.Spells used) : declaration.block = Token.span used := by
  cases h with
  | mk _ _ _ value => simp [Token.span_eq, Declaration.block, Block.through, value.endFrom_eq]

theorem Declaration.block_tree (declaration : Declaration) :
    declaration.tree.block = declaration.block := by
  rw [Declaration.tree]
  split <;> rfl

/-- **The nodes of a declaration stand where they were written.** -/
theorem Declaration.Spells.sound {declaration : Declaration} {used : List Token}
    (h : declaration.Spells used) (inside : used <:+: tokensOf source) :
    declaration.tree.node.Sound source := by
  have ordered := ordered_span inside
  have covered := within_span inside
  rw [← h.block_eq] at ordered covered
  cases h with
  | mk _ fields _ value =>
    obtain ⟨-, rest⟩ := infix_of_cons inside
    obtain ⟨head, rest⟩ := infix_of_append rest
    obtain ⟨-, tokens⟩ := infix_of_cons rest
    obtain ⟨name, type⟩ := fields.soundWithin head fun token mem => covered token (by simp [mem])
    have value := value.soundWithin tokens fun token mem => covered token (by simp [mem])
    have all := List.forall_mem_cons.2 ⟨name, List.forall_mem_cons.2
      ⟨type, List.forall_mem_singleton.2 value⟩⟩
    rw [Declaration.tree]
    split <;> exact Node.sound_of_children rfl ordered all

/-- The declaration at the head of a loop is sound, within what covers its tokens. -/
theorem SpellsInitial.soundWithin {initial : Option Declaration} {used : List Token}
    {outer : Block} (h : SpellsInitial initial used) (inside : used <:+: tokensOf source)
    (covered : ∀ token ∈ used, token.block.Within outer) :
    ∀ declaration ∈ initial, declaration.tree.node.SoundWithin source outer := by
  cases h with
  | none => exact fun _ mem => absurd mem (Option.not_mem_none _)
  | some spells =>
    rintro _ ⟨⟩
    refine ⟨?_, spells.sound inside⟩
    rw [Declaration.block_node, Declaration.block_tree, spells.block_eq]
    exact Token.span_within spells.ne_nil covered

/-! ## Where commands end -/

/-- A word that may be left out ends what is before it. -/
theorem SpellsWord.endFrom_eq {terminal : Terminal} {written : Option Block} {used : List Token}
    (h : SpellsWord terminal written used) (before : Block) :
    Token.endFrom before.last used = (written.getD before).last := by
  cases h <;> rfl

theorem Command.Spells.ne_nil {command : Command} {used : List Token} (h : command.Spells used) :
    used ≠ [] := by
  cases h <;> exact List.cons_ne_nil _ _

mutual

/-- **A command goes from its first token to its last.** -/
theorem Command.Spells.block_eq {command : Command} {used : List Token} :
    command.Spells used → command.block = Token.span used
  | .assign _ _ value => by
    simp [Token.span_eq, Command.block, Block.through, value.endFrom_eq, identifierOf]
  | .print _ value => by
    simp [Token.span_eq, Command.block, Block.through, value.endFrom_eq]
  | .ifThen _ condition optional body => by
    simp [Token.span_eq, Command.block, Block.through, condition.endFrom_eq,
      optional.endFrom_eq, body.endFrom_eq]
  | .ifElse _ condition _ _ other otherwise => by
    simp [Token.span_eq, Command.block, Block.through, otherwise.endFrom_eq]
  | .whileLoop _ condition optional body => by
    simp [Token.span_eq, Command.block, Block.through, condition.endFrom_eq,
      optional.endFrom_eq, body.endFrom_eq]
  | .forLoop _ _ _ _ _ _ _ _ optional body => by
    simp [Token.span_eq, Command.block, Block.through, optional.endFrom_eq, body.endFrom_eq]

/-- What may be a command ends what is before it. -/
theorem OptionalCommand.Spells.endFrom_eq {command : OptionalCommand} {used : List Token} :
    command.Spells used →
      ∀ before : Block, Token.endFrom before.last used = (command.lastBlock before).last
  | .none, _ => rfl
  | .some command, _ => by
    rw [OptionalCommand.lastBlock, command.block_eq, Token.endFrom_eq command.ne_nil]

/-- A body ends what is before it. -/
theorem Body.Spells.endFrom_eq {body : Body} {used : List Token} :
    body.Spells used →
      ∀ before : Block, Token.endFrom before.last used = (body.lastBlock before).last
  | .bare command, before => command.endFrom_eq before
  | .braced _ _ _, _ => by simp [Body.lastBlock]

end

theorem Command.block_tree (command : Command) : command.tree.block = command.block := by
  cases command <;> rfl

/-! ## Lists of items -/

theorem Items.list_eq_nil {items : Items} : items.list = [] ↔ items = .nil := by
  cases items <;> simp [Items.list]

/-- Items have tokens if there are any. -/
theorem Items.Spells.eq_nil_iff {items : Items} {used : List Token} (h : items.Spells used) :
    used = [] ↔ items = .nil := by
  cases h with
  | nil => simp
  | declaration first | command first => simp [first.ne_nil]

mutual

/-- **Items stand in order, from the first token to the last.** -/
theorem Items.Spells.cover {items : Items} {used : List Token} :
    items.Spells used → used <:+: tokensOf source → Item.Cover items.list used
  | .nil, _ => ⟨⟨List.forall_mem_nil _, .nil⟩, rfl⟩
  | .declaration first others, inside =>
    (others.cover (infix_of_append inside).2).cons first.ne_nil
      ((Declaration.block_tree _).trans first.block_eq) inside
  | .command first others, inside =>
    (others.cover (infix_of_append inside).2).cons first.ne_nil
      ((Command.block_tree _).trans first.block_eq) inside

/-- The items after the first one stand in order, after a separator. -/
theorem Items.SpellsRest.cover {items : Items} {used : List Token} :
    items.SpellsRest used → used <:+: tokensOf source → Item.CoverRest items.list used
  | .nil, _ => .inl ⟨rfl, rfl⟩
  | .items _ nonempty items, inside =>
    .inr ⟨_, _, rfl, mt items.eq_nil_iff.1 nonempty, mt Items.list_eq_nil.1 nonempty,
      items.cover (infix_of_cons inside).2⟩

end

/-- What a list of items becomes is sound, within what covers their tokens and the block given for
an empty list. -/
theorem Items.Spells.soundWithin_ofItems {items : Items} {used : List Token} {block outer : Block}
    (h : items.Spells used) (inside : used <:+: tokensOf source)
    (all : ∀ item ∈ items.list, item.node.Sound source) (ordered : block.first ≤ block.last)
    (within : block.Within outer) (covered : ∀ token ∈ used, token.block.Within outer) :
    (SmallImp.Command.ofItems items.list block).node.SoundWithin source outer := by
  have cover := h.cover inside
  obtain ⟨sound, folded⟩ := Command.sound_ofItems ordered all cover.inOrder
  refine ⟨?_, sound⟩
  rw [Command.block_node, folded]
  split
  · exact within
  · next nonempty =>
    rw [cover.hull_eq]
    exact Token.span_within (mt h.eq_nil_iff.1 (mt Items.list_eq_nil.2 nonempty)) covered

/-! ## Commands -/

/-- A `for` loop is sound if its parts are, within its block. -/
theorem sound_expandedFor {initial : Option Declaration} {condition : Expr}
    {body : SmallImp.Command} {step : Option SmallImp.Command} {block : Block}
    (ordered : block.first ≤ block.last)
    (starts : ∀ declaration ∈ initial, declaration.tree.node.SoundWithin source block)
    (tests : condition.node.SoundWithin source block)
    (bodied : body.node.SoundWithin source block)
    (steps : ∀ command ∈ step, command.node.SoundWithin source block) :
    (expandedFor initial condition body step block).node.Sound source := by
  -- the step, or nothing after the body
  have after : (step.getD (.nil body.block.finish)).node.SoundWithin source block := by
    cases step with
    | none => exact ⟨Command.finish_within bodied, Node.sound_leaf_of_isInner rfl le_rfl⟩
    | some command => exact steps command rfl
  have round := Node.sound_pair (.plain (.command .sequence)) rfl bodied.sound after.sound
  have whole := bodied.within.union after.within
  rw [Command.block_node, Command.block_node] at round whole
  have loop : (SmallImp.Command.loop condition (.sequence body _ _) block).node.Sound source :=
    Node.sound_of_children rfl ordered
      (List.forall_mem_cons.2 ⟨tests, List.forall_mem_singleton.2 ⟨whole, round⟩⟩)
  -- the declaration, or nothing before the loop
  cases initial with
  | none =>
    have start : (Node.leaf (.plain (.declaration .nil)) block.start).SoundWithin source block :=
      ⟨Block.Within.rfl.start ordered, Node.sound_leaf_of_isInner rfl le_rfl⟩
    exact Node.sound_of_children rfl ordered (List.forall_mem_cons.2
      ⟨start, List.forall_mem_singleton.2 ⟨Block.Within.rfl, loop⟩⟩)
  | some written =>
    exact Node.sound_of_children rfl ordered (List.forall_mem_cons.2
      ⟨starts written rfl, List.forall_mem_singleton.2 ⟨Block.Within.rfl, loop⟩⟩)

/-- The block of a command goes from its start to its end, and covers its tokens. -/
theorem Command.Spells.covers {command : Command} {used : List Token} (h : command.Spells used)
    (inside : used <:+: tokensOf source) : command.block.first ≤ command.block.last ∧
      ∀ token ∈ used, token.block.Within command.block := by
  rw [h.block_eq]
  exact ⟨ordered_span inside, within_span inside⟩

mutual

/-- **The nodes of a command stand where they were written.** -/
theorem Command.Spells.sound {command : Command} {used : List Token} :
    command.Spells used → used <:+: tokensOf source → command.tree.node.Sound source
  | h@(.assign name _ value), inside => by
    obtain ⟨ordered, covered⟩ := h.covers inside
    obtain ⟨mem, rest⟩ := infix_of_cons inside
    obtain ⟨-, tokens⟩ := infix_of_cons rest
    have target := soundWithin_identifierOf mem name (covered _ (by simp))
    have value := value.soundWithin tokens fun token mem => covered token (by simp [mem])
    exact Node.sound_of_children rfl ordered
      (List.forall_mem_cons.2 ⟨target, List.forall_mem_singleton.2 value⟩)
  | h@(.print _ value), inside => by
    obtain ⟨ordered, covered⟩ := h.covers inside
    obtain ⟨-, tokens⟩ := infix_of_cons inside
    have value := value.soundWithin tokens fun token mem => covered token (by simp [mem])
    exact Node.sound_of_children rfl ordered (List.forall_mem_singleton.2 value)
  | h@(.ifThen _ tests _ body), inside => by
    obtain ⟨ordered, covered⟩ := h.covers inside
    obtain ⟨-, rest⟩ := infix_of_cons inside
    obtain ⟨test, rest⟩ := infix_of_append rest
    obtain ⟨-, inner⟩ := infix_of_append rest
    have tests := tests.soundWithin test fun token mem => covered token (by simp [mem])
    have body := body.soundWithin inner _ le_rfl (Expr.finish_within tests)
      fun token mem => covered token (by simp [mem])
    exact Node.sound_of_children rfl ordered
      (List.forall_mem_cons.2 ⟨tests, List.forall_mem_singleton.2 body⟩)
  | h@(.ifElse _ tests _ body _ otherwise), inside => by
    obtain ⟨ordered, covered⟩ := h.covers inside
    obtain ⟨-, rest⟩ := infix_of_cons inside
    obtain ⟨test, rest⟩ := infix_of_append rest
    obtain ⟨-, rest⟩ := infix_of_append rest
    obtain ⟨inner, rest⟩ := infix_of_append rest
    obtain ⟨-, outer⟩ := infix_of_cons rest
    have tests := tests.soundWithin test fun token mem => covered token (by simp [mem])
    have body := body.soundWithin inner _ le_rfl (Expr.finish_within tests)
      fun token mem => covered token (by simp [mem])
    have otherwise := otherwise.soundWithin outer _ le_rfl (Command.finish_within body)
      fun token mem => covered token (by simp [mem])
    exact Node.sound_of_children rfl ordered (List.forall_mem_cons.2
      ⟨tests, List.forall_mem_cons.2 ⟨body, List.forall_mem_singleton.2 otherwise⟩⟩)
  | h@(.whileLoop _ tests _ body), inside => by
    obtain ⟨ordered, covered⟩ := h.covers inside
    obtain ⟨-, rest⟩ := infix_of_cons inside
    obtain ⟨test, rest⟩ := infix_of_append rest
    obtain ⟨-, inner⟩ := infix_of_append rest
    have tests := tests.soundWithin test fun token mem => covered token (by simp [mem])
    have body := body.soundWithin inner _ le_rfl (Block.Within.rfl.finish ordered)
      fun token mem => covered token (by simp [mem])
    exact Node.sound_of_children rfl ordered
      (List.forall_mem_cons.2 ⟨tests, List.forall_mem_singleton.2 body⟩)
  | h@(.forLoop _ _ initial _ tests _ step _ _ body), inside => by
    obtain ⟨ordered, covered⟩ := h.covers inside
    obtain ⟨-, rest⟩ := infix_of_cons inside
    obtain ⟨-, rest⟩ := infix_of_cons rest
    obtain ⟨start, rest⟩ := infix_of_append rest
    obtain ⟨-, rest⟩ := infix_of_cons rest
    obtain ⟨test, rest⟩ := infix_of_append rest
    obtain ⟨-, rest⟩ := infix_of_cons rest
    obtain ⟨next, rest⟩ := infix_of_append rest
    obtain ⟨-, rest⟩ := infix_of_cons rest
    obtain ⟨-, inner⟩ := infix_of_append rest
    exact sound_expandedFor ordered
      (initial.soundWithin start fun token mem => covered token (by simp [mem]))
      (tests.soundWithin test fun token mem => covered token (by simp [mem]))
      (body.soundWithin inner _ le_rfl (Block.Within.rfl.finish ordered)
        fun token mem => covered token (by simp [mem]))
      (step.soundWithin next fun token mem => covered token (by simp [mem]))

/-- What may be a command is sound, within what covers its tokens. -/
theorem OptionalCommand.Spells.soundWithin {command : OptionalCommand} {used : List Token} :
    command.Spells used → used <:+: tokensOf source → ∀ {outer : Block},
      (∀ token ∈ used, token.block.Within outer) →
        ∀ tree ∈ command.tree?, tree.node.SoundWithin source outer
  | .none, _, _, _ => fun _ mem => absurd mem (Option.not_mem_none _)
  | .some command, inside, _, covered => by
    rintro _ ⟨⟩
    refine ⟨?_, command.sound inside⟩
    rw [Command.block_node, Command.block_tree, command.block_eq]
    exact Token.span_within command.ne_nil covered

/-- A body is sound, within what covers its tokens and the empty block given. -/
theorem Body.Spells.soundWithin {body : Body} {used : List Token} :
    body.Spells used → used <:+: tokensOf source → ∀ (emptyAt : Block) {outer : Block},
      emptyAt.first ≤ emptyAt.last → emptyAt.Within outer →
        (∀ token ∈ used, token.block.Within outer) →
          (body.tree emptyAt).node.SoundWithin source outer
  | @Body.Spells.bare command _ spells, inside, emptyAt, outer, ordered, within, covered => by
    have all := spells.soundWithin inside covered
    rw [Body.tree]
    cases tree : command.tree? with
    | none => exact ⟨within, Node.sound_leaf_of_isInner rfl ordered⟩
    | some written => exact all written tree
  | @Body.Spells.braced opening closing _ tokens _ items _, inside, _, _, _, _, covered => by
    obtain ⟨-, rest⟩ := infix_of_cons inside
    obtain ⟨inner, -⟩ := infix_of_append rest
    have first := covered opening (by simp)
    have last := covered closing (by simp)
    have ordered : opening.block.first ≤ closing.block.last := by
      have order := ordered_span inside
      rwa [Token.span_eq, Token.endFrom_append] at order
    exact items.soundWithin_ofItems inner (items.sound inner) ordered ⟨first.first, last.last⟩
      fun token mem => covered token (by simp [mem])

/-- Items are sound. -/
theorem Items.Spells.sound {items : Items} {used : List Token} :
    items.Spells used → used <:+: tokensOf source → ∀ item ∈ items.list, item.node.Sound source
  | .nil, _ => List.forall_mem_nil _
  | .declaration first rest, inside => by
    obtain ⟨here, later⟩ := infix_of_append inside
    exact List.forall_mem_cons.2 ⟨first.sound here, rest.sound later⟩
  | .command first rest, inside => by
    obtain ⟨here, later⟩ := infix_of_append inside
    exact List.forall_mem_cons.2 ⟨first.sound here, rest.sound later⟩

/-- The items after the first one are sound. -/
theorem Items.SpellsRest.sound {items : Items} {used : List Token} :
    items.SpellsRest used → used <:+: tokensOf source →
      ∀ item ∈ items.list, item.node.Sound source
  | .nil, _ => List.forall_mem_nil _
  | .items _ _ items, inside => items.sound (infix_of_cons inside).2

end

end Phrase

/-! ## Programs -/

/-- **The positions in the tree of a program are sound.**  Each node is placed: its block goes
from its start to its end and covers those of its children, an expression covers just its own
tokens, and at a literal, a name, a type or an operator the source has the word of it.  If there
are tokens the tree goes from the first that is no separator to the last. -/
theorem parse_placed {source : String} {program : Command} (accepted : parse source = .ok program) :
    (∀ node ∈ program.node.nodes, node.Placed source) ∧
      (tokensOf source ≠ [] → ∃ first last, (properTokensOf source).head? = some first ∧
        (properTokensOf source).getLast? = some last ∧
          program.node.block = first.block.through last.block) := by
  obtain ⟨-, items, read, rfl⟩ := parse_ok_iff.1 accepted
  have spells := (Phrase.program_ok_iff.1 read).1
  have inside := List.infix_refl (tokensOf source)
  have cover := spells.cover inside
  have ordered : Block.origin.first ≤ Block.origin.last := le_rfl
  obtain ⟨sound, folded⟩ := Command.sound_ofItems ordered (spells.sound inside) cover.inOrder
  refine ⟨sound, fun nonempty => ?_⟩
  obtain ⟨first, last, head, final, span⟩ := exists_ends_tokensOf nonempty
  refine ⟨first, last, head, final, ?_⟩
  have list : items.list ≠ [] :=
    mt Phrase.Items.list_eq_nil.1 (mt spells.eq_nil_iff.2 nonempty)
  rw [if_neg list, cover.hull_eq, span] at folded
  rw [Command.block_node]
  exact folded

/-- A loop without a declaration, a step and a body has a block for each of them, and goes over two
lines. -/
theorem parse_placed_for :
    ∃ program, parse ";\nfor (, x < (1),\n)\n" = .ok program ∧
      (∀ node ∈ program.node.nodes, node.Placed ";\nfor (, x < (1),\n)\n") ∧
        program.node.block = ⟨⟨2, 1⟩, ⟨3, 2⟩⟩ := by
  have accepted : (parse ";\nfor (, x < (1),\n)\n").toOption.isSome = true := by decide +kernel
  obtain ⟨program, accepted⟩ : ∃ program, parse ";\nfor (, x < (1),\n)\n" = .ok program := by
    cases result : parse ";\nfor (, x < (1),\n)\n" with
    | ok program => exact ⟨program, rfl⟩
    | error => rw [result] at accepted; cases accepted
  obtain ⟨placed, root⟩ := parse_placed accepted
  obtain ⟨first, last, head, final, block⟩ := root (by decide +kernel)
  have start : (properTokensOf ";\nfor (, x < (1),\n)\n").head? =
      some ⟨.forWord, "for", ⟨⟨2, 1⟩, ⟨2, 4⟩⟩⟩ := by decide +kernel
  have finish : (properTokensOf ";\nfor (, x < (1),\n)\n").getLast? =
      some ⟨.rightParen, ")", ⟨⟨3, 1⟩, ⟨3, 2⟩⟩⟩ := by decide +kernel
  obtain rfl := Option.some.inj (head.symm.trans start)
  obtain rfl := Option.some.inj (final.symm.trans finish)
  exact ⟨program, accepted, placed, block⟩

end SmallImp
