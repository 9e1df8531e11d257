/-
# What a `for` loop is short for

`for (D, E, S) do B` is short for `D` and then `while E do { B; S }`: both are accepted, and both
have one tree but for its blocks.  The grammar says what stands in the four places, so tokens that
it derives there are first read alone: all of them are taken (`Reads.mem_iff`), and they spell a
phrase that is settled (`exists_spells_command`).

That phrase then stands in both programs.  What is spelled and settled is read again wherever it
stands, so it makes no difference that the step is read before a parenthesis in the one and before
a brace in the other, or that a body which ends with an open `if` has a separator after it.
-/
import SmallImp.Proofs.Phrase.Places

namespace SmallImp

open Grammar

namespace Phrase

/-! ## Tokens that the grammar derives -/

/-- Tokens that spell a word of a language spell the phrase that the reader makes of them. -/
theorem exists_spells {α : Type} {X : Language Terminal} {F : Language Terminal → Prop}
    {P : α → List Token → Prop} {tokens : List Token} {reading : Reading α}
    (reads : Reads X F tokens reading) (yields : Yields P tokens reading) (last : F 1)
    (derives : spelling tokens ∈ X) : ∃ phrase, P phrase tokens := by
  obtain ⟨phrase, rfl⟩ := (reads.mem_iff last).1 derives
  obtain ⟨used, rfl, spells⟩ := yields
  rw [List.append_nil]
  exact ⟨phrase, spells⟩

theorem closing_one : Closing 1 := .of_first fun t rest hw => by cases hw

/-- Tokens that the grammar derives as an expression spell one. -/
theorem exists_spells_expression {tokens : List Token}
    (derives : spelling tokens ∈ language .expression) :
    ∃ e, Level.logic.Spells e tokens := by
  rw [Level.language_expression] at derives
  have enough := Level.height_le .logic
  exact exists_spells ((expressionsRead (16 * tokens.length + 10)).expression .logic tokens
    (by omega)) ((expressionsYield _).expression .logic tokens) (closing_one.follows .logic) derives

/-- Tokens that the grammar derives as a declaration spell one. -/
theorem exists_spells_declaration {tokens : List Token}
    (derives : spelling tokens ∈ language .declaration) :
    ∃ declaration : Declaration, declaration.Spells tokens :=
  exists_spells (declaration_reads tokens (Nat.lt_succ_self _))
    (Yields.declaration _ tokens) (closing_one.follows .logic) derives

/-- Tokens that the grammar derives as a command spell one that is settled. -/
theorem exists_spells_command {tokens : List Token}
    (derives : spelling tokens ∈ language .command) :
    ∃ command : Command, command.Spells tokens ∧ command.Settled :=
  exists_spells ((commandsRead _).command tokens (Nat.lt_succ_self _))
    ((commandsYield _).command tokens) closing_one derives

/-! ## The two programs -/

/-- The tokens of a `for` loop that has all its parts. -/
inductive ForTokens (start test next inner : List Token) : List Token → Prop
  | mk {word opening comma comma' closing doToken : Token} : word.terminal = .forWord →
      opening.terminal = .leftParen → comma.terminal = .comma → comma'.terminal = .comma →
      closing.terminal = .rightParen → doToken.terminal = .doWord →
      ForTokens start test next inner
        (word :: opening :: (start ++ comma :: (test ++ comma' :: (next ++ closing :: doToken ::
          inner))))

/-- The tokens that the loop is short for: the declaration, and then a `while` loop with the body
and the step in braces. -/
inductive ExpandedTokens (start test next inner : List Token) : List Token → Prop
  | mk {separator word doToken opening separator' closing : Token} :
      separator.terminal = .separator → word.terminal = .whileWord → doToken.terminal = .doWord →
      opening.terminal = .leftBrace → separator'.terminal = .separator →
      closing.terminal = .rightBrace →
      ExpandedTokens start test next inner
        (start ++ separator :: word :: (test ++ doToken :: opening :: (inner ++ separator' ::
          (next ++ [closing]))))

/-- The tree of a `for` loop that has all its parts, without its blocks. -/
def loopTree (initial : Declaration) (condition : Expr) (step body : Command) :
    SmallImp.Command :=
  .scope initial.tree.erased
    (.loop condition.erased (.sequence body.tree.erased step.tree.erased .origin) .origin) .origin

theorem ofItems_commands (first second : SmallImp.Command) (block : Block) :
    SmallImp.Command.ofItems [.command first, .command second] block =
      .sequence first second (first.block.union second.block) := rfl

theorem ofItems_scope (declaration : SmallImp.Declaration) (body : SmallImp.Command)
    (block : Block) :
    SmallImp.Command.ofItems [.declaration declaration, .command body] block =
      .scope declaration body (declaration.block.union body.block) := rfl

section
variable {initial : Declaration} {condition : Expr} {step body : Command}
variable {start test next inner tokens : List Token}

/-- A `for` loop is accepted, with its tree. -/
theorem ForTokens.accepted (h : ForTokens start test next inner tokens)
    (declares : initial.Spells start) (tests : Level.logic.Spells condition test)
    (steps : step.Spells next ∧ step.Settled) (runs : body.Spells inner ∧ body.Settled) :
    ∃ items, program tokens = .ok items ∧
      items.tree.erased = loopTree initial condition step body := by
  cases h with
  | @mk word opening comma comma' closing doToken here opens comma_ comma'_ closes do_ =>
    have loop : Command.Spells _ (word :: opening :: _) :=
      .forLoop here opens (.some declares) comma_ tests comma'_ (.some steps.1) closes (.some do_)
        (.bare (.some runs.1))
    have spells : Items.Spells _ _ := .command loop .nil
    rw [List.append_nil] at spells
    refine ⟨_, program_ok_iff.2 ⟨spells, ⟨steps.2, runs.2⟩, trivial⟩, ?_⟩
    rw [Items.tree, Command.erased_ofItems]
    simp only [Items.list, List.map_cons, List.map_nil, Item.erased, Command.tree,
      erased_expandedFor]
    rfl

/-- The items that a `for` loop is short for are accepted, with the same tree. -/
theorem ExpandedTokens.accepted (h : ExpandedTokens start test next inner tokens)
    (declares : initial.Spells start) (tests : Level.logic.Spells condition test)
    (steps : step.Spells next ∧ step.Settled) (runs : body.Spells inner ∧ body.Settled) :
    ∃ items, program tokens = .ok items ∧
      items.tree.erased = loopTree initial condition step body := by
  cases h with
  | @mk separator word doToken opening separator' closing separates here do_ opens separates'
      closes =>
    have alone (command : Command) : Items.command command .nil ≠ .nil := fun h => by cases h
    have last : Items.Spells (.command step .nil) (next ++ []) := .command steps.1 .nil
    have inBraces : Items.Spells (.command body (.command step .nil)) _ :=
      .command runs.1 (.items separates' (alone step) last)
    have loop : Command.Spells _ (word :: _) :=
      .whileLoop here tests (.some do_) (.braced opens inBraces closes)
    have after : Items.Spells (.command _ .nil) _ := .command loop .nil
    have spells : Items.Spells _ _ := .declaration declares (.items separates (alone _) after)
    simp only [List.append_nil, List.append_assoc, List.cons_append, List.nil_append] at spells
    refine ⟨_, program_ok_iff.2 ⟨spells, ⟨runs.2, steps.2, trivial⟩, trivial⟩, ?_⟩
    rw [Items.tree, Command.erased_ofItems]
    simp only [Items.list, List.map_cons, List.map_nil, Item.erased, Command.tree,
      SmallImp.Command.erased, Body.tree, Command.erased_ofItems]
    rw [ofItems_commands, ofItems_scope, Command.block_erased, Command.block_erased,
      Block.union_origin, Declaration.block_erased]
    rfl

/-- The expansion has a copy with other tokens that agree but for their blocks. -/
theorem ExpandedTokens.exists_copy {start' test' next' inner' tokens' : List Token}
    (h : ExpandedTokens start' test' next' inner' tokens')
    (sameStart : start.map Token.erased = start'.map Token.erased)
    (sameTest : test.map Token.erased = test'.map Token.erased)
    (sameNext : next.map Token.erased = next'.map Token.erased)
    (sameInner : inner.map Token.erased = inner'.map Token.erased) :
    ∃ tokens, ExpandedTokens start test next inner tokens ∧
      tokens.map Token.erased = tokens'.map Token.erased := by
  cases h with
  | mk separates here do_ opens separates' closes =>
    refine ⟨_, .mk separates here do_ opens separates' closes, ?_⟩
    simp only [List.map_append, List.map_cons, sameStart, sameTest, sameNext, sameInner]

end

end Phrase

open Phrase

/-- **A `for` loop is read as what it is short for.**  Whatever the grammar derives in its four
places, the loop and its expansion are both accepted, with one tree but for its blocks.  In the
expansion the same tokens may stand at other places. -/
theorem program_forLoop {start test next inner start' test' next' inner' : List Token}
    {tokens tokens' : List Token}
    (declares : spelling start ∈ language .declaration)
    (tests : spelling test ∈ language .expression)
    (steps : spelling next ∈ language .command) (runs : spelling inner ∈ language .command)
    (sameStart : start.map Token.erased = start'.map Token.erased)
    (sameTest : test.map Token.erased = test'.map Token.erased)
    (sameNext : next.map Token.erased = next'.map Token.erased)
    (sameInner : inner.map Token.erased = inner'.map Token.erased)
    (loop : ForTokens start test next inner tokens)
    (expanded : ExpandedTokens start' test' next' inner' tokens') :
    ∃ items items', program tokens = .ok items ∧ program tokens' = .ok items' ∧
      items.tree.node.same items'.tree.node = true := by
  obtain ⟨initial, declares⟩ := exists_spells_declaration declares
  obtain ⟨condition, tests⟩ := exists_spells_expression tests
  obtain ⟨step, steps⟩ := exists_spells_command steps
  obtain ⟨body, runs⟩ := exists_spells_command runs
  obtain ⟨items, accepted, tree⟩ := loop.accepted declares tests steps runs
  -- the expansion of the very same tokens, and then that of their copies
  obtain ⟨copy, expandedCopy, sameTokens⟩ :=
    expanded.exists_copy sameStart sameTest sameNext sameInner
  obtain ⟨itemsCopy, acceptedCopy, treeCopy⟩ := expandedCopy.accepted declares tests steps runs
  obtain ⟨items', accepted', same⟩ := program_erased acceptedCopy sameTokens
  refine ⟨items, items', accepted, accepted', ?_⟩
  rw [Node.same_iff] at same ⊢
  rw [← same, ← Command.node_erased, ← Command.node_erased, tree, treeCopy]

/-- `for (let b : bool = true, b, if b b = false) do if b print b`: the step and the body both end
with an open `if`, and stand before a parenthesis and at the end in the one program, before a brace
and a separator in the other. -/
theorem program_forLoop_openIfs :
    let token (terminal : Terminal) (text : String) : Token := ⟨terminal, text, .origin⟩
    let b := token .identifier "b"
    let start := [token .letWord "let", b, token .colon ":", token .boolWord "bool",
      token .assign "=", token .trueWord "true"]
    let next := [token .ifWord "if", b, b, token .assign "=", token .falseWord "false"]
    let inner := [token .ifWord "if", b, token .printWord "print", b]
    (spelling start ∈ language .declaration ∧ spelling [b] ∈ language .expression ∧
      spelling next ∈ language .command ∧ spelling inner ∈ language .command) ∧
    ∃ items items',
      program (token .forWord "for" :: token .leftParen "(" :: (start ++ token .comma "," ::
        ([b] ++ token .comma "," :: (next ++ token .rightParen ")" :: token .doWord "do" ::
          inner)))) = .ok items ∧
      program (start ++ token .separator ";" :: token .whileWord "while" :: ([b] ++
        token .doWord "do" :: token .leftBrace "\x7b" :: (inner ++ token .separator ";" ::
          (next ++ [token .rightBrace "\x7d"])))) = .ok items' ∧
      items.tree.node.same items'.tree.node = true := by
  intro token b start next inner
  have declared : Reads _ _ start (declaration 97 start) := declaration_reads start (by decide)
  have declares : spelling start ∈ language .declaration :=
    (declared.mem_iff (closing_one.follows .logic)).2 ⟨_, rfl⟩
  have tests : spelling [b] ∈ language .expression := by
    rw [Level.language_expression]
    exact (((expressionsRead 26).expression .logic [b] (by decide)).mem_iff
      (closing_one.follows .logic)).2 ⟨_, rfl⟩
  have steps : spelling next ∈ language .command :=
    (((commandsRead 81).command next (by decide)).mem_iff closing_one).2 ⟨_, rfl⟩
  have runs : spelling inner ∈ language .command :=
    (((commandsRead 65).command inner (by decide)).mem_iff closing_one).2 ⟨_, rfl⟩
  exact ⟨⟨declares, tests, steps, runs⟩, program_forLoop declares tests steps runs rfl rfl rfl rfl
    (.mk rfl rfl rfl rfl rfl rfl) (.mk rfl rfl rfl rfl rfl rfl)⟩

end SmallImp
