/-
# What is read does not depend on places

Tokens that agree but for their blocks are read as phrases that agree but for theirs
(`program_erased`).  A separator may also be a line end in one list and a semicolon in the other:
once the separators are settled nothing looks at their text.

What some tokens spell has a copy that the erased tokens spell (`Spells.exists_erased`), with the
same tree but for its blocks.  Two lists with the same erased tokens so have the same copies.
-/
import SmallImp.Proofs.Grammar.Acceptance
import SmallImp.Proofs.Phrase.Wording

namespace SmallImp

theorem Block.through_origin : Block.origin.through .origin = .origin := rfl

open Phrase

/-! ## Expressions -/

section Expressions

variable {token : Token}

theorem identifierOf_erased (h : token.terminal = .identifier) :
    (identifierOf token).erased = identifierOf token.erased := by
  rw [identifierOf, identifierOf, Token.text_erased (by simp [h])]
  rfl

theorem literalExpr_erased (type : Ty) (h : token.terminal ≠ .separator) :
    (literalExpr type token).erased = literalExpr type token.erased := by
  rw [literalExpr, literalExpr, Token.text_erased h]
  rfl

theorem unaryExpr_erased (operand : Expr) (h : token.terminal ≠ .separator) :
    (unaryExpr token operand).erased = unaryExpr token.erased operand.erased := by
  simp [unaryExpr, operatorOf, Expr.erased, Operator.erased, Token.text_erased h,
    Block.through_origin]

theorem binaryExpr_erased (left right : Expr) (h : token.terminal ≠ .separator) :
    (binaryExpr left token right).erased = binaryExpr left.erased token.erased right.erased := by
  simp [binaryExpr, operatorOf, Expr.erased, Operator.erased, Token.text_erased h,
    Block.through_origin]

/-- **Erased tokens spell the erased expression.** -/
theorem Level.Spells.erased {ℓ : Level} {e : Expr} {tokens : List Token}
    (h : ℓ.Spells e tokens) : ℓ.Spells e.erased (tokens.map Token.erased) := by
  induction h with
  | number h =>
    rw [literalExpr_erased _ (by simp [h])]
    exact .number h
  | boolean h =>
    rw [literalExpr_erased _ (by rcases h with h | h <;> simp [h])]
    exact .boolean h
  | name h =>
    rw [Expr.erased, identifierOf_erased h]
    exact .name h
  | parenthesis opens _ closes ih =>
    simpa [Expr.erased, Block.through_origin] using
      Spells.parenthesis (Token.erased_of opens) ih (Token.erased_of closes)
  | tighter open_ _ ih => exact .tighter open_ ih
  | leading leading here _ ih =>
    rw [unaryExpr_erased _ (ne_separator_of_hasOperator here)]
    exact .leading leading here ih
  | binary binary _ here _ ihLeft ihRight =>
    rw [binaryExpr_erased _ _ (ne_separator_of_hasOperator here), List.map_append]
    exact .binary binary ihLeft here ihRight

end Expressions

namespace Phrase

/-! ## Declarations -/

/-- A declaration with all its blocks erased. -/
def Declaration.erased (declaration : Declaration) : Declaration :=
  { declaration with
    start := .origin
    name := declaration.name.erased
    type := declaration.type.erased
    value := declaration.value.erased }

theorem Declaration.tree_erased (declaration : Declaration) :
    declaration.erased.tree = declaration.tree.erased := by
  simp only [Declaration.tree, Declaration.erased, Declaration.block, Expr.block_erased,
    Block.through_origin]
  split <;> rfl

theorem NamesType.erased {written : TypeName} {token : Token} (h : NamesType written token) :
    NamesType written.erased token.erased := by
  cases h with
  | number h => exact .number (Token.erased_of h)
  | boolean h => exact .boolean (Token.erased_of h)

theorem SpellsFields.erased {nameFirst : Bool} {name : Identifier} {written : TypeName}
    {head : List Token} (h : SpellsFields nameFirst name written head) :
    SpellsFields nameFirst name.erased written.erased (head.map Token.erased) := by
  cases h with
  | nameFirst name colon type =>
    rw [identifierOf_erased name]
    exact .nameFirst name colon type.erased
  | typeFirst colon type name =>
    rw [identifierOf_erased name]
    exact .typeFirst colon type.erased name

theorem Declaration.Spells.erased {declaration : Declaration} {used : List Token}
    (h : declaration.Spells used) : declaration.erased.Spells (used.map Token.erased) := by
  cases h with
  | @mk word _ _ _ _ _ _ _ starts head assigns value =>
    have starts : startsDeclaration word.erased.terminal = true := starts
    simpa [Declaration.erased] using
      Declaration.Spells.mk starts head.erased (Token.erased_of assigns) value.erased

theorem SpellsInitial.erased {initial : Option Declaration} {used : List Token}
    (h : SpellsInitial initial used) :
    SpellsInitial (initial.map (·.erased)) (used.map Token.erased) := by
  cases h with
  | none => exact .none
  | some declaration => exact .some declaration.erased

theorem SpellsWord.erased {terminal : Terminal} {written : Option Block} {used : List Token}
    (h : SpellsWord terminal written used) :
    SpellsWord terminal (written.map fun _ => .origin) (used.map Token.erased) := by
  cases h with
  | none => exact .none
  | some here => exact .some (Token.erased_of here)

/-! ## Commands -/

mutual

/-- A command has a copy that the erased tokens spell. -/
theorem Command.Spells.exists_erased {command : Command} {used : List Token} :
    command.Spells used → ∃ copy : Command, copy.Spells (used.map Token.erased) ∧
      copy.isOpen = command.isOpen ∧ (command.Settled → copy.Settled) ∧
      copy.tree.erased = command.tree.erased
  | .assign name assigns value => by
    refine ⟨_, .assign (Token.erased_of name) (Token.erased_of assigns) value.erased, rfl, id, ?_⟩
    rw [← identifierOf_erased name]
    simp only [Command.tree, SmallImp.Command.erased, Expr.erased_erased]
    rfl
  | .print here value => by
    refine ⟨_, .print (Token.erased_of here) value.erased, rfl, id, ?_⟩
    simp only [Command.tree, SmallImp.Command.erased, Expr.erased_erased]
  | .ifThen here tests then_ body => by
    obtain ⟨body', spells, -, settled, tree⟩ := body.exists_erased
    have copy := Command.Spells.ifThen (Token.erased_of here) tests.erased then_.erased spells
    simp only [← List.map_append, ← List.map_cons] at copy
    refine ⟨_, copy, rfl, settled, ?_⟩
    simp only [Command.tree, SmallImp.Command.erased, Expr.erased_erased]
    rw [tree]
  | .ifElse here tests then_ body else_ otherwise => by
    obtain ⟨body', spells, isOpen, settled, tree⟩ := body.exists_erased
    obtain ⟨otherwise', spells', isOpen', settled', tree'⟩ := otherwise.exists_erased
    have copy := Command.Spells.ifElse (Token.erased_of here) tests.erased then_.erased spells
      (Token.erased_of else_) spells'
    simp only [← List.map_append, ← List.map_cons] at copy
    refine ⟨_, copy, isOpen', fun h => ⟨isOpen.trans h.1, settled h.2.1, settled' h.2.2⟩, ?_⟩
    simp only [Command.tree, SmallImp.Command.erased, Expr.erased_erased]
    rw [tree, tree']
  | .whileLoop here tests do_ body => by
    obtain ⟨body', spells, isOpen, settled, tree⟩ := body.exists_erased
    have copy := Command.Spells.whileLoop (Token.erased_of here) tests.erased do_.erased spells
    simp only [← List.map_append, ← List.map_cons] at copy
    refine ⟨_, copy, isOpen, settled, ?_⟩
    simp only [Command.tree, SmallImp.Command.erased, Expr.erased_erased]
    rw [tree]
  | .forLoop here opens starts comma tests comma' steps closes do_ body => by
    obtain ⟨step', spells, -, settled, tree⟩ := steps.exists_erased
    obtain ⟨body', spells', isOpen, settled', tree'⟩ := body.exists_erased
    have copy := Command.Spells.forLoop (Token.erased_of here) (Token.erased_of opens)
      starts.erased (Token.erased_of comma) tests.erased (Token.erased_of comma') spells
      (Token.erased_of closes) do_.erased spells'
    simp only [← List.map_append, ← List.map_cons] at copy
    refine ⟨_, copy, isOpen, fun h => ⟨settled h.1, settled' h.2⟩, ?_⟩
    simp only [Command.tree, erased_expandedFor, Expr.erased_erased, Option.map_map,
      Function.comp_def, Declaration.tree_erased, Declaration.erased_erased, tree]
    rw [tree']

/-- A command that may be left out has a copy that the erased tokens spell. -/
theorem OptionalCommand.Spells.exists_erased {command : OptionalCommand} {used : List Token} :
    command.Spells used → ∃ copy : OptionalCommand, copy.Spells (used.map Token.erased) ∧
      copy.isOpen = command.isOpen ∧ (command.Settled → copy.Settled) ∧
      copy.tree?.map SmallImp.Command.erased = command.tree?.map SmallImp.Command.erased
  | .none => ⟨.none, .none, rfl, id, rfl⟩
  | .some command => by
    obtain ⟨command', spells, isOpen, settled, tree⟩ := command.exists_erased
    exact ⟨.some command', .some spells, isOpen, settled, congrArg some tree⟩

/-- A body has a copy that the erased tokens spell. -/
theorem Body.Spells.exists_erased {body : Body} {used : List Token} :
    body.Spells used → ∃ copy : Body, copy.Spells (used.map Token.erased) ∧
      copy.isOpen = body.isOpen ∧ (body.Settled → copy.Settled) ∧
      ∀ emptyAt emptyAt', (copy.tree emptyAt).erased = (body.tree emptyAt').erased
  | .bare command => by
    obtain ⟨command', spells, isOpen, settled, tree⟩ := command.exists_erased
    refine ⟨.bare command', .bare spells, isOpen, settled, fun _ _ => ?_⟩
    rw [Body.tree, Body.tree, erased_getD, erased_getD, tree]
  | .braced opens items closes => by
    obtain ⟨items', spells, -, settled, tree⟩ := items.exists_erased
    have copy := Body.Spells.braced (Token.erased_of opens) spells (Token.erased_of closes)
    rw [← List.map_singleton, ← List.map_append, ← List.map_cons] at copy
    refine ⟨_, copy, rfl, settled, fun _ _ => ?_⟩
    rw [Body.tree, Body.tree, Command.erased_ofItems, Command.erased_ofItems, tree]

/-- A list of items has a copy that the erased tokens spell. -/
theorem Items.Spells.exists_erased {items : Items} {used : List Token} :
    items.Spells used → ∃ copy : Items, copy.Spells (used.map Token.erased) ∧
      (copy = .nil ↔ items = .nil) ∧ (items.Settled → copy.Settled) ∧
      copy.list.map Item.erased = items.list.map Item.erased
  | .nil => ⟨.nil, .nil, Iff.rfl, id, rfl⟩
  | .declaration first rest => by
    obtain ⟨rest', others, settled, trees⟩ := rest.exists_erased
    have copy := Items.Spells.declaration first.erased others
    rw [← List.map_append] at copy
    refine ⟨_, copy, by simp, settled, ?_⟩
    simp only [Items.list, List.map_cons, Item.erased, Declaration.tree_erased,
      Declaration.erased_erased, trees]
  | .command first rest => by
    obtain ⟨first', spells, -, settled, tree⟩ := first.exists_erased
    obtain ⟨rest', others, settled', trees⟩ := rest.exists_erased
    have copy := Items.Spells.command spells others
    rw [← List.map_append] at copy
    refine ⟨_, copy, by simp, fun h => ⟨settled h.1, settled' h.2⟩, ?_⟩
    simp only [Items.list, List.map_cons, Item.erased, tree, trees]

/-- The items after the first one have a copy that the erased tokens spell. -/
theorem Items.SpellsRest.exists_erased {items : Items} {used : List Token} :
    items.SpellsRest used → ∃ copy : Items, copy.SpellsRest (used.map Token.erased) ∧
      (items.Settled → copy.Settled) ∧
      copy.list.map Item.erased = items.list.map Item.erased
  | .nil => ⟨.nil, .nil, id, rfl⟩
  | .items here nonempty items => by
    obtain ⟨items', spells, empty, settled, tree⟩ := items.exists_erased
    exact ⟨items', .items (Token.erased_of here) (mt empty.1 nonempty) spells, settled, tree⟩

end

/-! ## Programs -/

/-- The program that erased tokens make up is the same but for its blocks. -/
theorem program_map_erased {tokens : List Token} {items : Items}
    (accepted : program tokens = .ok items) :
    ∃ copy, program (tokens.map Token.erased) = .ok copy ∧
      copy.list.map Item.erased = items.list.map Item.erased := by
  obtain ⟨spells, settled⟩ := program_ok_iff.1 accepted
  obtain ⟨copy, spells, -, settled', trees⟩ := spells.exists_erased
  exact ⟨copy, program_ok_iff.2 ⟨spells, settled' settled⟩, trees⟩

/-- Whether tokens make up a program is a matter of their terminals. -/
theorem program_ok_of_spelling_eq {tokens tokens' : List Token} {items : Items}
    (accepted : program tokens = .ok items) (same : spelling tokens = spelling tokens') :
    ∃ items', program tokens' = .ok items' := by
  have sentence := program_outcome tokens
  have outcome := program_outcome tokens'
  rw [accepted] at sentence
  cases result : program tokens' with
  | ok items' => exact ⟨items', rfl⟩
  | error rest =>
    rw [result] at outcome
    exact absurd (same ▸ sentence) outcome.not_isSentence

/-- **Tokens that agree but for their blocks make up the same program but for its blocks.** -/
theorem program_erased {tokens tokens' : List Token} {items : Items}
    (accepted : program tokens = .ok items)
    (same : tokens.map Token.erased = tokens'.map Token.erased) :
    ∃ items', program tokens' = .ok items' ∧
      items.tree.node.same items'.tree.node = true := by
  have spelling_erased (list : List Token) : spelling list = spelling (list.map Token.erased) := by
    simp [spelling, Function.comp_def]
  have spelled : spelling tokens = spelling tokens' := by
    rw [spelling_erased tokens, same, ← spelling_erased]
  obtain ⟨items', accepted'⟩ := program_ok_of_spelling_eq accepted spelled
  -- both programs have a copy spelled by the erased tokens, and that is one
  obtain ⟨copy, erased, trees⟩ := program_map_erased accepted
  obtain ⟨copy', erased', trees'⟩ := program_map_erased accepted'
  rw [same, erased'] at erased
  obtain rfl := Except.ok.inj erased
  refine ⟨items', accepted', Command.same_of_erased ?_⟩
  rw [Items.tree, Items.tree, Command.erased_ofItems, Command.erased_ofItems, ← trees, trees']

end Phrase
end SmallImp
