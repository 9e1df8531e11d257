/-
# Expressions are read exactly, and in one way

What the tokens of an expression spell is grouped and yields these tokens (`Level.Spells.yield`,
`Level.Spells.grouped`), and a grouped expression is spelled by any tokens that agree with its
yield but for their blocks (`Expr.Grouped.exists_spells`).  What is spelled is read, and read in
one way, so no two grouped expressions have the same yield (`Expr.Grouped.erased_eq`).  The two
halves together are `expression_exact`.
-/
import SmallImp.Proofs.Phrase.Expressions
import SmallImp.Proofs.Phrase.Shape
import SmallImp.Proofs.Tree.Precedence

namespace SmallImp

/-! ## Lexemes -/

section Lexemes
variable {ℓ : Level} {token : Token}

open Terminal

/-- A boolean that is a lexeme is of the terminal of its text. -/
theorem Token.IsLexeme.ofBoolean_text (h : token.IsLexeme)
    (boolean : token.terminal = .trueWord ∨ token.terminal = .falseWord) :
    ofBoolean token.text = token.terminal := by
  rcases boolean with here | here
  · have text : token.text = "true" := h.text_of_keyword (by rw [here]; decide)
    rw [text, here]
    rfl
  · have text : token.text = "false" := h.text_of_keyword (by rw [here]; decide)
    rw [text, here]
    rfl

/-- An operator that is a lexeme is of the terminal of its text. -/
theorem Token.IsLexeme.ofSymbol_text (h : token.IsLexeme)
    (operator : ℓ.hasOperator token.terminal = true) : ofSymbol token.text = token.terminal := by
  have same := symbols_ofSymbol _ (h.mem_symbols operator)
  rwa [String.ofList_toList] at same

theorem Terminal.symbols_paren : ∀ p ∈ symbols,
    (p.2 = .leftParen → p.1 = ['(']) ∧ (p.2 = .rightParen → p.1 = [')']) := by
  decide +kernel

theorem Terminal.keywords_paren : ∀ p ∈ keywords, p.2 ≠ .leftParen ∧ p.2 ≠ .rightParen := by
  decide +kernel

/-- Each parenthesis has one text. -/
theorem Terminal.Lexeme.eq_paren {t : Terminal} {text : List Char} (h : t.Lexeme text) :
    (t = .leftParen → text = ['(']) ∧ (t = .rightParen → text = [')']) := by
  cases h with
  | keyword mem =>
    obtain ⟨opens, closes⟩ := keywords_paren _ mem
    exact ⟨fun h => absurd h opens, fun h => absurd h closes⟩
  | symbol mem => exact symbols_paren _ mem
  | number | identifier => simp

theorem Token.IsLexeme.kept_leftParen (h : token.IsLexeme) (opens : token.terminal = .leftParen) :
    token.kept = ⟨.leftParen, "(", .origin⟩ := by
  have text : token.text = "(" := String.toList_injective (h.lexeme.eq_paren.1 opens)
  simp [kept, erased, opens, text]

theorem Token.IsLexeme.kept_rightParen (h : token.IsLexeme)
    (closes : token.terminal = .rightParen) : token.kept = ⟨.rightParen, ")", .origin⟩ := by
  have text : token.text = ")" := String.toList_injective (h.lexeme.eq_paren.2 closes)
  simp [kept, erased, closes, text]

/-- An operator is kept whole. -/
theorem Token.kept_of_hasOperator (operator : ℓ.hasOperator token.terminal = true) :
    token.kept = token := by
  refine kept_of ?_ ?_
  · intro opens; rw [opens] at operator; cases ℓ <;> cases operator
  · intro closes; rw [closes] at operator; cases ℓ <;> cases operator

end Lexemes

/-! ## What is spelled is grouped -/

namespace BinaryOperator

theorem leftOperand_level (operator : BinaryOperator) :
    operator.level.leftOperand = operator.leftLevel := by
  cases operator <;> rfl

theorem rightOperand_level (operator : BinaryOperator) :
    operator.level.rightOperand = operator.rightLevel := by
  cases operator <;> rfl

end BinaryOperator

namespace Level
open Phrase

variable {ℓ m : Level} {e : Expr} {tokens : List Token}

/-- **The yield of what tokens spell is those tokens.** -/
theorem Spells.yield (h : ℓ.Spells e tokens) (lexical : Lexical tokens) :
    e.yield = tokens.map Token.kept := by
  induction h with
  | @number token here =>
    rw [List.map_singleton, Token.kept_of (by simp [here]) (by simp [here])]
    simp [Expr.yield, literalExpr, Literal.terminal, ← here]
  | @boolean token here =>
    have proper : token.terminal ≠ .separator ∧ token.kept = token := by
      rcases here with here | here <;>
        exact ⟨by simp [here], Token.kept_of (by simp [here]) (by simp [here])⟩
    have same := (lexical token (by simp) proper.1).ofBoolean_text here
    rw [List.map_singleton, proper.2]
    simp [Expr.yield, literalExpr, Literal.terminal, same]
  | @name token here =>
    rw [List.map_singleton, Token.kept_of (by simp [here]) (by simp [here])]
    simp [Expr.yield, identifierOf, ← here]
  | @parenthesis opening closing inner tokens opens _ closes ih =>
    simp only [lexical_cons, lexical_append] at lexical
    obtain ⟨first, middle, last, -⟩ := lexical
    rw [List.map_cons, List.map_append, List.map_singleton, ← ih middle,
      (first (by simp [opens])).kept_leftParen opens,
      (last (by simp [closes])).kept_rightParen closes]
    rfl
  | tighter _ _ ih => exact ih lexical
  | @leading ℓ operator operand tokens _ here _ ih =>
    obtain ⟨lexeme, after⟩ := lexical_cons.1 lexical
    have same := (lexeme (ne_separator_of_hasOperator here)).ofSymbol_text here
    rw [List.map_cons, ← ih after, Token.kept_of_hasOperator here]
    simp [unaryExpr, Expr.yield, operatorOf, same]
  | @binary ℓ left right operator before after _ _ here _ ihLeft ihRight =>
    obtain ⟨first, second⟩ := lexical_append.1 lexical
    obtain ⟨lexeme, second⟩ := lexical_cons.1 second
    have same := (lexeme (ne_separator_of_hasOperator here)).ofSymbol_text here
    rw [List.map_append, List.map_cons, ← ihLeft first, ← ihRight second,
      Token.kept_of_hasOperator here]
    simp [binaryExpr, Expr.yield, operatorOf, same]

/-- **What tokens spell at a level is grouped, and stands at that level.** -/
theorem Spells.grouped (h : ℓ.Spells e tokens) (lexical : Lexical tokens) :
    e.Grouped ∧ e.StandsAt ℓ := by
  induction h with
  | number | boolean | name => exact ⟨trivial, le_rfl⟩
  | parenthesis _ _ _ ih =>
    simp only [lexical_cons, lexical_append] at lexical
    exact ⟨(ih lexical.2.1).1, le_rfl⟩
  | @tighter ℓ _ _ open_ _ ih =>
    obtain ⟨grouped, stands⟩ := ih lexical
    have := height_next open_
    unfold Expr.StandsAt at stands ⊢
    exact ⟨grouped, by omega⟩
  | @leading ℓ operator operand _ leading here _ ih =>
    obtain ⟨lexeme, after⟩ := lexical_cons.1 lexical
    have lexeme := lexeme (ne_separator_of_hasOperator here)
    obtain ⟨known, found, rfl⟩ := lexeme.exists_unary? leading here
    obtain ⟨grouped, stands⟩ := ih after
    refine ⟨⟨known, found, stands, grouped⟩, ?_⟩
    rw [Expr.StandsAt, unaryExpr, Expr.level, found]
    exact le_rfl
  | @binary ℓ left right operator _ _ binary _ here _ ihLeft ihRight =>
    obtain ⟨first, second⟩ := lexical_append.1 lexical
    obtain ⟨lexeme, second⟩ := lexical_cons.1 second
    have lexeme := lexeme (ne_separator_of_hasOperator here)
    obtain ⟨known, found, rfl⟩ := lexeme.exists_binary? binary here
    obtain ⟨groupedLeft, standsLeft⟩ := ihLeft first
    obtain ⟨groupedRight, standsRight⟩ := ihRight second
    rw [known.leftOperand_level] at standsLeft
    rw [known.rightOperand_level] at standsRight
    refine ⟨⟨known, found, standsLeft, groupedLeft, standsRight, groupedRight⟩, ?_⟩
    rw [Expr.StandsAt, binaryExpr, Expr.level, found]
    exact le_rfl

/-! ## What is grouped is spelled -/

theorem height_injective {ℓ m : Level} (h : ℓ.height = m.height) : ℓ = m := by
  cases ℓ <;> cases m <;> first | rfl | cases h

/-- What is spelled at a level is spelled at all looser ones. -/
theorem Spells.loosen (h : m.Spells e tokens) (le : m.height ≤ ℓ.height) : ℓ.Spells e tokens := by
  induction ℓ using tightest_induction with
  | closed =>
    have one : 1 ≤ m.height := by cases m <;> decide
    obtain rfl : m = atom := height_injective (Nat.le_antisymm le one)
    exact h
  | step ℓ open_ ih =>
    obtain same | less := le.eq_or_lt
    · exact height_injective same ▸ h
    · have := height_next open_
      exact .tighter open_ (ih (by omega))

end Level

theorem Token.eq_of_erased {token : Token} {t : Terminal} {text : String} {block : Block}
    (same : token.erased = (Token.mk t text block).erased) (proper : t ≠ .separator) :
    token.terminal = t ∧ token.text = text := by
  have terminal : token.terminal = t := congrArg Token.terminal same
  have texts : token.erased.text = (Token.mk t text block).erased.text := congrArg Token.text same
  rw [Token.text_erased (terminal ▸ proper), Token.text_erased proper] at texts
  exact ⟨terminal, texts⟩

theorem Terminal.not_lexeme_foreign (name : String) (text : List Char) :
    ¬ (foreign name).Lexeme text := by
  have noKeyword : ∀ p ∈ keywords, (p.2 matches foreign _) = false := by decide
  have noSymbol : ∀ p ∈ symbols, (p.2 matches foreign _) = false := by decide
  rintro (mem | mem)
  · cases noKeyword _ mem
  · cases noSymbol _ mem

/-- A lexeme of the terminal of a boolean is one of the two words. -/
theorem Terminal.Lexeme.ofBoolean_cases {lexeme : String} {text : List Char}
    (h : (ofBoolean lexeme).Lexeme text) :
    ofBoolean lexeme = .trueWord ∨ ofBoolean lexeme = .falseWord := by
  unfold ofBoolean at h ⊢
  split
  case isTrue => exact .inl rfl
  case isFalse other =>
    rw [if_neg other] at h
    split
    case isTrue => exact .inr rfl
    case isFalse foreign =>
      rw [if_neg foreign] at h
      exact absurd h (not_lexeme_foreign _ _)

theorem Operator.unary?_some {operator : Operator} {known : UnaryOperator}
    (h : operator.unary? = some known) :
    operator.kind = .unary ∧ known.level.hasOperator (.ofSymbol operator.symbol) = true := by
  unfold unary? at h
  split at h
  case h_1 kind =>
    exact ⟨kind, UnaryOperator.table_hasOperator _ (mem_of_lookup h)⟩
  case h_2 => cases h

theorem Operator.binary?_some {operator : Operator} {known : BinaryOperator}
    (h : operator.binary? = some known) :
    operator.kind = .binary ∧ known.level.hasOperator (.ofSymbol operator.symbol) = true := by
  unfold binary? at h
  split at h
  case h_1 kind =>
    exact ⟨kind, BinaryOperator.table_hasOperator _ (mem_of_lookup h)⟩
  case h_2 => cases h

open Phrase in
/-- **A grouped expression is spelled, at its own level, by the tokens of its yield.** -/
theorem Expr.Grouped.exists_spells {e : Expr} (h : e.Grouped) {tokens : List Token}
    (lexical : Lexical tokens) (agree : tokens.map Token.erased = e.yield.map Token.erased) :
    ∃ spelled : Expr, e.level.Spells spelled tokens ∧ spelled.erased = e.erased := by
  induction e generalizing tokens with
  | value literal block =>
    obtain ⟨type, lexeme, at_⟩ := literal
    obtain ⟨token, rfl, same⟩ := List.map_eq_singleton_iff.1 agree
    cases type with
    | number =>
      obtain ⟨terminal, rfl⟩ := Token.eq_of_erased same (by simp [Literal.terminal])
      exact ⟨_, .number terminal, rfl⟩
    | boolean =>
      have terminal : token.terminal = .ofBoolean lexeme := congrArg Token.terminal same
      have proper : token.terminal ≠ .separator := by
        rw [terminal]; unfold Terminal.ofBoolean; split_ifs <;> simp
      have lexeme' := (lexical token (by simp) proper).lexeme
      rw [terminal] at lexeme'
      obtain ⟨-, rfl⟩ := Token.eq_of_erased same fun h => proper (terminal.trans h)
      exact ⟨_, .boolean (terminal ▸ lexeme'.ofBoolean_cases), rfl⟩
  | identifier name block =>
    obtain ⟨name, at_⟩ := name
    obtain ⟨token, rfl, same⟩ := List.map_eq_singleton_iff.1 agree
    obtain ⟨terminal, rfl⟩ := Token.eq_of_erased same (by simp)
    exact ⟨_, .name terminal, rfl⟩
  | unary operator operand block ih =>
    obtain ⟨known, found, stands, grouped⟩ := h
    obtain ⟨kind, symbol, at_⟩ := operator
    obtain ⟨rfl, here⟩ := Operator.unary?_some found
    obtain ⟨token, after, rfl, same, rest⟩ := List.map_eq_cons_iff.1 agree
    obtain ⟨terminal, rfl⟩ := Token.eq_of_erased same (Level.ne_separator_of_hasOperator here)
    obtain ⟨spelled, spells, eq⟩ := ih grouped (lexical_cons.1 lexical).2 rest
    refine ⟨unaryExpr token spelled, ?_, ?_⟩
    · rw [level, found]
      exact .leading known.fixity_level (terminal ▸ here) (spells.loosen stands)
    · rw [unaryExpr, erased, erased, eq]; rfl
  | binary left operator right block ihLeft ihRight =>
    obtain ⟨known, found, standsLeft, groupedLeft, standsRight, groupedRight⟩ := h
    obtain ⟨kind, symbol, at_⟩ := operator
    obtain ⟨rfl, here⟩ := Operator.binary?_some found
    rw [yield, List.map_append] at agree
    obtain ⟨before, more, rfl, first, rest⟩ := List.map_eq_append_iff.1 agree
    obtain ⟨token, after, rfl, same, second⟩ := List.map_eq_cons_iff.1 rest
    obtain ⟨terminal, rfl⟩ := Token.eq_of_erased same (Level.ne_separator_of_hasOperator here)
    obtain ⟨lexicalLeft, lexicalRight⟩ := lexical_append.1 lexical
    obtain ⟨left', spellsLeft, eqLeft⟩ := ihLeft groupedLeft lexicalLeft first
    obtain ⟨right', spellsRight, eqRight⟩ :=
      ihRight groupedRight (lexical_cons.1 lexicalRight).2 second
    refine ⟨binaryExpr left' token right', ?_, ?_⟩
    · rw [level, found]
      rw [← known.leftOperand_level] at standsLeft
      rw [← known.rightOperand_level] at standsRight
      exact .binary known.isBinary_level (spellsLeft.loosen standsLeft) (terminal ▸ here)
        (spellsRight.loosen standsRight)
    · rw [binaryExpr, erased, erased, eqLeft, eqRight]; rfl
  | parenthesis inner block ih =>
    obtain ⟨opening, more, rfl, first, rest⟩ := List.map_eq_cons_iff.1 agree
    rw [List.map_append] at rest
    obtain ⟨tokens, end_, rfl, middle, rest⟩ := List.map_eq_append_iff.1 rest
    obtain ⟨closing, rfl, last⟩ := List.map_eq_singleton_iff.1 rest
    simp only [lexical_cons, lexical_append] at lexical
    obtain ⟨spelled, spells, eq⟩ := ih h lexical.2.1 middle
    have opens : opening.terminal = .leftParen := congrArg Token.terminal first
    have closes : closing.terminal = .rightParen := congrArg Token.terminal last
    refine ⟨_, .parenthesis opens (spells.loosen (Level.height_le _)) closes, ?_⟩
    rw [erased, erased, eq]
  | unknown node => exact h.elim

/-! ## The leaves of a shaped tree -/

theorem Token.isLexeme_erased {token : Token} (proper : token.terminal ≠ .separator) :
    token.erased.IsLexeme ↔ token.IsLexeme := by
  constructor
  · rintro ⟨lexeme, noKeyword⟩
    rw [text_erased proper] at lexeme noKeyword
    exact ⟨lexeme, noKeyword⟩
  · rintro ⟨lexeme, noKeyword⟩
    rw [← text_erased proper] at lexeme noKeyword
    exact ⟨lexeme, noKeyword⟩

/-- Whether a token is of a text does not depend on its block. -/
theorem Lexical.of_erased {tokens others : List Token} (h : Lexical others)
    (agree : tokens.map Token.erased = others.map Token.erased) : Lexical tokens := by
  intro token mem proper
  have mem' : token.erased ∈ others.map Token.erased := agree ▸ List.mem_map_of_mem mem
  obtain ⟨other, there, same⟩ := List.mem_map.1 mem'
  have proper' : other.terminal ≠ .separator := by
    rw [← Token.terminal_erased, same]
    exact proper
  rw [← Token.isLexeme_erased proper, ← same, Token.isLexeme_erased proper']
  exact h other there proper'

theorem Token.isLexeme_symbol {symbol : String} (block : Block)
    (mem : (symbol.toList, Terminal.ofSymbol symbol) ∈ Terminal.symbols) :
    (Token.mk (.ofSymbol symbol) symbol block).IsLexeme :=
  ⟨.symbol mem, fun name => absurd name (symbols_terminal _ mem).2⟩

theorem UnaryOperator.table_symbols :
    ∀ p ∈ table, (p.1.toList, Terminal.ofSymbol p.1) ∈ Terminal.symbols := by
  decide +kernel

theorem BinaryOperator.table_symbols :
    ∀ p ∈ table, (p.1.toList, Terminal.ofSymbol p.1) ∈ Terminal.symbols := by
  decide +kernel

theorem Terminal.isLexeme_ofBoolean {lexeme : String} (block : Block)
    (h : lexeme = "true" ∨ lexeme = "false") :
    (Token.mk (.ofBoolean lexeme) lexeme block).IsLexeme := by
  have mem : (lexeme, Terminal.ofBoolean lexeme) ∈ keywords := by
    rcases h with rfl | rfl <;> decide
  exact ⟨.keyword mem, fun name => absurd name (keywords_isWord _ mem).2.2⟩

theorem Token.isLexeme_identifier {name : String} (block : Block)
    (word : Terminal.isWord name.toList = true)
    (noKeyword : name ∉ Terminal.keywords.map Prod.fst) :
    (Token.mk .identifier name block).IsLexeme := by
  have other : Terminal.ofWord (String.ofList name.toList) = .identifier := by
    rw [String.ofList_toList, Terminal.ofWord]
    cases found : Terminal.keywords.lookup name with
    | none => rfl
    | some t => exact absurd (List.mem_map_of_mem (mem_of_lookup found)) noKeyword
  exact ⟨.identifier word, fun _ u lexeme => Terminal.ofWord_eq_identifier other word lexeme⟩

/-- **The tokens of a shaped tree are lexemes.** -/
theorem Expr.Shaped.lexical {e : Expr} (h : e.Shaped) : Lexical e.yield := by
  induction e with
  | value literal block =>
    obtain ⟨type, lexeme, at_⟩ := literal
    obtain ⟨-, valid, -⟩ := h
    refine lexical_cons.2 ⟨fun _ => ?_, List.forall_mem_nil _⟩
    cases type with
    | number => exact ⟨.number valid, fun name => by cases name⟩
    | boolean => exact Terminal.isLexeme_ofBoolean at_ valid
  | identifier name block =>
    obtain ⟨-, ⟨word, noKeyword⟩, -⟩ := h
    refine lexical_cons.2 ⟨fun _ => ?_, List.forall_mem_nil _⟩
    exact Token.isLexeme_identifier name.block word noKeyword
  | unary operator operand block ih =>
    obtain ⟨known, found⟩ := Option.isSome_iff_exists.1 h.1.isSome_unary
    refine lexical_cons.2 ⟨fun _ => ?_, ih h.2⟩
    exact Token.isLexeme_symbol _ (UnaryOperator.table_symbols _ (mem_of_lookup found))
  | binary left operator right block ihLeft ihRight =>
    obtain ⟨shapedLeft, laid, shapedRight⟩ := h
    obtain ⟨known, found⟩ := Option.isSome_iff_exists.1 laid.isSome_binary
    refine lexical_append.2 ⟨ihLeft shapedLeft, lexical_cons.2 ⟨fun _ => ?_, ihRight shapedRight⟩⟩
    exact Token.isLexeme_symbol _ (BinaryOperator.table_symbols _ (mem_of_lookup found))
  | parenthesis inner block ih =>
    have opens : (Token.mk .leftParen "(" .origin).IsLexeme :=
      ⟨.symbol (by decide), fun name => by cases name⟩
    have closes : (Token.mk .rightParen ")" .origin).IsLexeme :=
      ⟨.symbol (by decide), fun name => by cases name⟩
    simp only [yield, lexical_cons, lexical_append]
    exact ⟨fun _ => opens, ih h, fun _ => closes, List.forall_mem_nil _⟩
  | unknown node => exact h.elim

/-! ## Reading -/

namespace Level
open Phrase

variable {e : Expr} {tokens : List Token}

/-- Tokens are read as one expression. -/
theorem Rereads.unique {ℓ : Level} {again : Expr} (h : ℓ.Rereads e tokens)
    (h' : ℓ.Rereads again tokens) : e = again := by
  have stops : ℓ.StopsAt [] := by rintro _ ⟨⟩
  have read := h _ [] stops (Nat.lt_succ_self _)
  rw [h' _ [] stops (Nat.lt_succ_self _)] at read
  cases read
  rfl

/-- **The words of expressions are those that an expression is spelled with.** -/
theorem exists_spells_iff :
    spelling tokens ∈ Grammar.language .expression ↔ ∃ e : Expr, logic.Spells e tokens := by
  have enough : 16 * tokens.length + logic.height < fuelFor tokens := by
    unfold fuelFor; simp only [height]; omega
  have reads := (expressionsRead (fuelFor tokens)).expression logic tokens enough
  rw [language_expression]
  constructor
  · intro derived
    have ends : logic.Follows 1 := fun t rest mem => by cases mem
    have yields := (expressionsYield (fuelFor tokens)).expression logic tokens
    cases result : expression (fuelFor tokens) logic tokens with
    | failed rest =>
      rw [result] at reads
      obtain ⟨used, eq, -, wrong⟩ := reads
      rw [eq, spelling_append] at derived
      exact absurd (by rwa [mul_one]) (wrong 1 ends (spelling rest) rfl)
    | read e rest =>
      rw [result] at reads yields
      obtain ⟨used, eq, -, exact_⟩ := reads
      rw [eq, spelling_append] at derived
      have done : spelling rest = [] := exact_ 1 ends (spelling rest) rfl (by rwa [mul_one])
      obtain rfl : rest = [] := List.map_eq_nil_iff.1 done
      obtain ⟨used', eq', spells⟩ := yields
      rw [List.append_nil] at eq'
      exact ⟨e, eq' ▸ spells⟩
  · rintro ⟨e, spells⟩
    have read := spells.rereads.1 (fuelFor tokens) [] (by rintro _ ⟨⟩) (by rwa [List.append_nil])
    rw [List.append_nil] at read
    rw [read] at reads
    obtain ⟨used, eq, mem, -⟩ := reads
    rw [List.append_nil] at eq
    exact eq ▸ mem

end Level

/-- A grouped tree is spelled by tokens that agree with its yield. -/
theorem Expr.Grouped.exists_logic_spells {e : Expr} (h : e.Grouped) {tokens : List Token}
    (lexical : Lexical tokens) (agree : tokens.map Token.erased = e.yield.map Token.erased) :
    ∃ spelled : Expr, Level.logic.Spells spelled tokens ∧ spelled.erased = e.erased := by
  obtain ⟨spelled, spells, same⟩ := h.exists_spells lexical agree
  exact ⟨spelled, spells.loosen (Level.height_le _), same⟩

/-- **Grouped trees with one yield are one tree, but for blocks.** -/
theorem Expr.Grouped.erased_eq {e other : Expr} (h : e.Grouped) (h' : other.Grouped)
    (lexical : Lexical e.yield)
    (agree : e.yield.map Token.erased = other.yield.map Token.erased) :
    e.erased = other.erased := by
  obtain ⟨spelled, spells, same⟩ := h.exists_logic_spells lexical rfl
  obtain ⟨spelled', spells', same'⟩ := h'.exists_logic_spells lexical agree
  rw [← same, ← same', spells.rereads.1.unique spells'.rereads.1]

/-- **Expressions are read exactly, and in one way.**  Tokens that the grammar derives from an
expression are read as a tree that yields them and is grouped, and every grouped tree with that
yield is the same but for its blocks.  Conversely, any tokens that agree with the yield of a shaped
and grouped tree are such tokens, and they are read as that tree. -/
theorem Phrase.expression_exact :
    (∀ tokens : List Token, Lexical tokens → spelling tokens ∈ Grammar.language .expression →
      ∃ e : Expr, Level.logic.Rereads e tokens ∧ e.Shaped ∧
        e.yield = tokens.map Token.kept ∧ e.Grouped ∧
        ∀ other : Expr, other.yield.map Token.erased = tokens.map Token.erased → other.Grouped →
          other.erased = e.erased) ∧
    ∀ (e : Expr) (tokens : List Token), e.Shaped → e.Grouped →
      tokens.map Token.erased = e.yield.map Token.erased →
      Lexical tokens ∧ spelling tokens ∈ Grammar.language .expression ∧
        ∃ again : Expr, Level.logic.Rereads again tokens ∧ again.erased = e.erased := by
  constructor
  · intro tokens lexical derived
    obtain ⟨e, spells⟩ := Level.exists_spells_iff.1 derived
    have yields := spells.yield lexical
    have grouped := (spells.grouped lexical).1
    have agrees : e.yield.map Token.erased = tokens.map Token.erased := by
      rw [yields, List.map_map]
      exact List.map_congr_left fun token _ => token.erased_kept
    refine ⟨e, spells.rereads.1, spells.shaped lexical, yields, grouped, ?_⟩
    intro other agree grouped'
    exact (grouped.erased_eq grouped' (lexical.of_erased agrees) (agrees.trans agree.symm)).symm
  · intro e tokens shaped grouped agree
    have lexical : Lexical tokens := shaped.lexical.of_erased agree
    obtain ⟨again, spells, same⟩ := grouped.exists_logic_spells lexical agree
    exact ⟨lexical, Level.exists_spells_iff.2 ⟨again, spells⟩, again, spells.rereads.1, same⟩

/-- The tree of `2 ^ -1 - 3 * -x`, without its blocks. -/
def powerOfDifference : Expr :=
  let number (lexeme : String) : Expr := .value ⟨.number, lexeme, .origin⟩ .origin
  let negative (operand : Expr) : Expr := .unary ⟨.unary, "-", .origin⟩ operand .origin
  let between (left : Expr) (symbol : String) (right : Expr) : Expr :=
    .binary left ⟨.binary, symbol, .origin⟩ right .origin
  let product := between (number "3") "*" (negative (.identifier ⟨"x", .origin⟩ .origin))
  between (number "2") "^" (between (negative (number "1")) "-" product)

theorem Phrase.expression_exact_powerOfDifference :
    powerOfDifference.Shaped ∧ powerOfDifference.Grouped ∧
      Lexical (tokensOf "2 ^ -1 - 3 * -x") ∧
      spelling (tokensOf "2 ^ -1 - 3 * -x") ∈ Grammar.language .expression ∧
      ∃ e : Expr, Level.logic.Rereads e (tokensOf "2 ^ -1 - 3 * -x") ∧
        e.erased = powerOfDifference ∧
        e.yield = (tokensOf "2 ^ -1 - 3 * -x").map Token.kept ∧ e.Grouped := by
  have number (digit : Char) (isDigit : digit.isDigit = true) : Terminal.IsNumber [digit] :=
    .whole ⟨by simp, by simpa using isDigit⟩
  have two : (Literal.mk .number "2" .origin).node.Laid .value := ⟨rfl, number '2' rfl, trivial⟩
  have one : (Literal.mk .number "1" .origin).node.Laid .value := ⟨rfl, number '1' rfl, trivial⟩
  have three : (Literal.mk .number "3" .origin).node.Laid .value := ⟨rfl, number '3' rfl, trivial⟩
  have x : (Identifier.mk "x" .origin).node.Laid .identifier :=
    ⟨rfl, ⟨by decide, by decide⟩, trivial⟩
  have shaped : powerOfDifference.Shaped :=
    ⟨two, ⟨rfl, rfl, trivial⟩, ⟨⟨rfl, rfl, trivial⟩, one⟩, ⟨rfl, rfl, trivial⟩, three,
      ⟨rfl, rfl, trivial⟩, ⟨rfl, rfl, trivial⟩, x⟩
  have grouped : powerOfDifference.Grouped := by decide +kernel
  obtain ⟨lexical, derived, again, read, same⟩ :=
    expression_exact.2 powerOfDifference (tokensOf "2 ^ -1 - 3 * -x") shaped grouped
      (by decide +kernel)
  obtain ⟨e, read', -, yields, grouped', -⟩ := expression_exact.1 _ lexical derived
  obtain rfl := read.unique read'
  exact ⟨shaped, grouped, lexical, derived, again, read, same, yields, grouped'⟩

end SmallImp
