/-
# The tree of a program is shaped

A token that scanning makes is a lexeme of its terminal, and no keyword is an identifier
(`Token.IsLexeme`).  So the leaves of a tree made of such tokens are laid out: names, literals and
operators one by one, and the operators of each level are in the tables of operators
(`Token.IsLexeme.exists_unary?`, `Token.IsLexeme.exists_binary?`).

From there on it is an induction on how a phrase is spelled: whatever is left out, in whichever
order the fields of a declaration stand, and however a `for` loop is expanded, the tree has the
children that its kinds call for (`parse_shaped`).
-/
import SmallImp.Proofs.Grammar.Acceptance
import SmallImp.Proofs.Phrase.Commands
import SmallImp.Proofs.Token.Scanned
import SmallImp.Proofs.Token.Separators
import SmallImp.Proofs.Tree.Precedence
import SmallImp.Proofs.Tree.Shape

namespace SmallImp

/-! ## Tokens -/

/-- A token of a text: a lexeme of its terminal, and no keyword if it is an identifier. -/
structure Token.IsLexeme (token : Token) : Prop where
  lexeme : token.terminal.Lexeme token.text.toList
  noKeyword : token.terminal = .identifier →
    ∀ {u : Terminal}, u.Lexeme token.text.toList → u = .identifier

/-- All tokens but the separators are lexemes. -/
def Lexical (tokens : List Token) : Prop :=
  ∀ token ∈ tokens, token.terminal ≠ .separator → token.IsLexeme

theorem lexical_cons {token : Token} {tokens : List Token} :
    Lexical (token :: tokens) ↔
      (token.terminal ≠ .separator → token.IsLexeme) ∧ Lexical tokens :=
  List.forall_mem_cons

theorem lexical_append {first second : List Token} :
    Lexical (first ++ second) ↔ Lexical first ∧ Lexical second :=
  List.forall_mem_append

theorem Scanned.isLexeme {text rest : List Char} {place last : Position} {tokens : List Token}
    (scanned : Scanned text place tokens rest last) : ∀ token ∈ tokens, token.IsLexeme := by
  induction scanned with
  | here => exact List.forall_mem_nil _
  | blank _ _ ih => exact ih
  | lexeme longest _ ih =>
    refine List.forall_mem_cons.2 ⟨⟨?_, ?_⟩, ih⟩
    · rw [String.toList_ofList]
      exact longest.isLexeme
    · rw [String.toList_ofList]
      exact longest.noKeyword

/-- The tokens of a text are lexemes. -/
theorem lexical_tokensOf (source : String) : Lexical (tokensOf source) := by
  obtain ⟨_, _, scanned, -⟩ := scan_scanned source
  exact fun token mem proper =>
    scanned.isLexeme token (Separator.mem_of_mem_separated mem proper)

/-! ## Leaves -/

open Terminal

/-- Where the text of a token is from: the tables, or one of the two classes. -/
theorem Token.IsLexeme.cases_text {token : Token} (h : token.IsLexeme) :
    (token.text, token.terminal) ∈ keywords ∨ (token.text.toList, token.terminal) ∈ symbols ∨
      (token.terminal = .number ∧ IsNumber token.text.toList) ∨
      (token.terminal = .identifier ∧ isWord token.text.toList = true) := by
  obtain ⟨terminal, text, block⟩ := token
  obtain ⟨lexeme, -⟩ := h
  dsimp only at lexeme ⊢
  generalize eq : text.toList = characters at lexeme
  cases lexeme with
  | keyword mem => exact .inl (String.toList_injective eq ▸ mem)
  | symbol mem => exact .inr (.inl mem)
  | number number => exact .inr (.inr (.inl ⟨rfl, number⟩))
  | identifier word => exact .inr (.inr (.inr ⟨rfl, word⟩))

/-- A token of the terminal of a keyword is the keyword. -/
theorem Token.IsLexeme.text_of_keyword {token : Token} (h : token.IsLexeme) {word : String}
    (keyword : (word, token.terminal) ∈ keywords) : token.text = word :=
  String.toList_injective (h.lexeme.eq_of_mem_keywords keyword)

theorem Level.keywords_hasOperator (ℓ : Level) : ∀ p ∈ keywords, ℓ.hasOperator p.2 = false := by
  cases ℓ <;> decide

theorem symbols_terminal : ∀ p ∈ symbols, p.2 ≠ .number ∧ p.2 ≠ .identifier := by
  decide +kernel

section Leaves
variable {token : Token}

open Phrase

theorem Token.IsLexeme.isNumber (h : token.IsLexeme) (number : token.terminal = .number) :
    IsNumber token.text.toList := by
  obtain mem | mem | ⟨-, digits⟩ | ⟨name, -⟩ := h.cases_text
  · exact absurd number (keywords_apart _ mem).1
  · exact absurd number (symbols_terminal _ mem).1
  · exact digits
  · rw [number] at name; cases name

theorem Token.IsLexeme.isBoolean (h : token.IsLexeme)
    (boolean : token.terminal = .trueWord ∨ token.terminal = .falseWord) :
    token.text = "true" ∨ token.text = "false" := by
  rcases boolean with here | here
  · exact .inl (h.text_of_keyword (by rw [here]; decide))
  · exact .inr (h.text_of_keyword (by rw [here]; decide))

/-- An identifier is a word, and no keyword. -/
theorem Token.IsLexeme.laid_identifierOf (h : token.IsLexeme)
    (name : token.terminal = .identifier) : (identifierOf token).node.Laid .identifier := by
  refine ⟨rfl, ⟨?_, fun mem => ?_⟩, trivial⟩
  · obtain mem | mem | ⟨number, -⟩ | ⟨-, word⟩ := h.cases_text
    · exact absurd name (keywords_isWord _ mem).2.2
    · exact absurd name (symbols_terminal _ mem).2
    · rw [name] at number; cases number
    · exact word
  · obtain ⟨⟨word, t⟩, mem, rfl⟩ := List.mem_map.1 mem
    exact (keywords_isWord _ mem).2.2 (h.noKeyword name (.keyword mem))

/-- An operator is a symbol. -/
theorem Token.IsLexeme.mem_symbols (h : token.IsLexeme) {ℓ : Level}
    (operator : ℓ.hasOperator token.terminal = true) :
    (token.text.toList, token.terminal) ∈ symbols := by
  obtain mem | mem | ⟨other, -⟩ | ⟨other, -⟩ := h.cases_text
  · rw [ℓ.keywords_hasOperator _ mem] at operator
    cases operator
  · exact mem
  · rw [other] at operator
    cases ℓ <;> cases operator
  · rw [other] at operator
    cases ℓ <;> cases operator

/-- An operator that stands before its operand is one of the table, and of the level it is of. -/
theorem Token.IsLexeme.exists_unary? (h : token.IsLexeme) {ℓ : Level}
    (leading : ℓ.fixity = .leading) (operator : ℓ.hasOperator token.terminal = true) :
    ∃ known, (operatorOf .unary token).unary? = some known ∧ known.level = ℓ := by
  have known := Level.symbols_unary leading _ (h.mem_symbols operator) operator
  rw [String.ofList_toList] at known
  exact Option.map_eq_some_iff.1 known

/-- An operator that stands between its operands is one of the table, and of the level it is of. -/
theorem Token.IsLexeme.exists_binary? (h : token.IsLexeme) {ℓ : Level}
    (binary : ℓ.isBinary = true) (operator : ℓ.hasOperator token.terminal = true) :
    ∃ known, (operatorOf .binary token).binary? = some known ∧ known.level = ℓ := by
  have known := Level.symbols_binary binary _ (h.mem_symbols operator) operator
  rw [String.ofList_toList] at known
  exact Option.map_eq_some_iff.1 known

end Leaves

/-! ## Expressions -/

/-- **The tree of an expression is shaped.** -/
theorem Level.Spells.shaped {ℓ : Level} {e : Expr} {tokens : List Token} (h : ℓ.Spells e tokens)
    (lexical : Lexical tokens) : e.Shaped := by
  induction h with
  | @number token here =>
    have lexeme := lexical token (by simp) (by simp [here])
    exact ⟨rfl, lexeme.isNumber here, trivial⟩
  | @boolean token here =>
    have lexeme := lexical token (by simp) (by rcases here with here | here <;> simp [here])
    exact ⟨rfl, lexeme.isBoolean here, trivial⟩
  | @name token here =>
    have lexeme := lexical token (by simp) (by simp [here])
    exact lexeme.laid_identifierOf here
  | parenthesis _ _ _ ih =>
    simp only [lexical_cons, lexical_append] at lexical
    exact ih lexical.2.1
  | tighter _ _ ih => exact ih lexical
  | @leading ℓ operator _ _ leading here _ ih =>
    obtain ⟨lexeme, operand⟩ := lexical_cons.1 lexical
    have lexeme := lexeme (ne_separator_of_hasOperator here)
    obtain ⟨_, known, -⟩ := lexeme.exists_unary? leading here
    exact ⟨⟨rfl, Option.isSome_of_eq_some known, trivial⟩, ih operand⟩
  | @binary ℓ _ _ operator _ _ binary _ here _ ihLeft ihRight =>
    obtain ⟨left, right⟩ := lexical_append.1 lexical
    obtain ⟨lexeme, right⟩ := lexical_cons.1 right
    have lexeme := lexeme (ne_separator_of_hasOperator here)
    obtain ⟨_, known, -⟩ := lexeme.exists_binary? binary here
    exact ⟨ihLeft left, ⟨rfl, Option.isSome_of_eq_some known, trivial⟩, ihRight right⟩

namespace Phrase

/-! ## Declarations -/

theorem SpellsFields.shaped {nameFirst : Bool} {name : Identifier} {written : TypeName}
    {head : List Token} (h : SpellsFields nameFirst name written head) (lexical : Lexical head) :
    name.node.Laid .identifier := by
  cases h with
  | nameFirst here | typeFirst _ _ here =>
    exact (lexical _ (by simp) (by simp [here])).laid_identifierOf here

theorem Declaration.Spells.shaped {declaration : Declaration} {used : List Token}
    (h : declaration.Spells used) (lexical : Lexical used) : declaration.tree.Shaped := by
  cases h with
  | @mk _ _ _ _ written _ _ _ _ fields _ value =>
    simp only [lexical_cons, lexical_append] at lexical
    obtain ⟨-, head, -, tokens⟩ := lexical
    have type : written.node.Laid .type := ⟨rfl, trivial, trivial⟩
    unfold Declaration.tree
    split <;> exact ⟨fields.shaped head, type, value.shaped tokens⟩

theorem SpellsInitial.shaped {initial : Option Declaration} {used : List Token}
    (h : SpellsInitial initial used) (lexical : Lexical used) :
    ∀ declaration ∈ initial, declaration.tree.Shaped := by
  cases h with
  | none => simp
  | some declaration => simpa using declaration.shaped lexical

/-! ## Commands -/

theorem shaped_expandedFor {initial : Option Declaration} {condition : Expr}
    {body : SmallImp.Command} {step : Option SmallImp.Command} (block : Block)
    (starts : ∀ declaration ∈ initial, declaration.tree.Shaped) (tests : condition.Shaped)
    (bodied : body.Shaped) (steps : ∀ command ∈ step, command.Shaped) :
    (expandedFor initial condition body step block).Shaped := by
  refine ⟨?_, tests, bodied, ?_⟩
  · cases initial with
    | none => trivial
    | some written => exact starts written rfl
  · cases step with
    | none => trivial
    | some command => exact steps command rfl

mutual

/-- **The tree of a command is shaped.** -/
theorem Command.Spells.shaped {command : Command} {used : List Token} :
    command.Spells used → Lexical used → command.tree.Shaped
  | .assign name _ value, lexical => by
    obtain ⟨lexeme, -, tokens⟩ := by simpa only [lexical_cons] using lexical
    exact ⟨(lexeme (by simp [name])).laid_identifierOf name, value.shaped tokens⟩
  | .print _ value, lexical => value.shaped (lexical_cons.1 lexical).2
  | .ifThen _ condition _ body, lexical => by
    simp only [lexical_cons, lexical_append] at lexical
    exact ⟨condition.shaped lexical.2.1, body.shaped lexical.2.2.2 _⟩
  | .ifElse _ condition _ body _ otherwise, lexical => by
    simp only [lexical_cons, lexical_append] at lexical
    obtain ⟨-, test, -, inner, -, outer⟩ := lexical
    exact ⟨condition.shaped test, body.shaped inner _, otherwise.shaped outer _⟩
  | .whileLoop _ condition _ body, lexical => by
    simp only [lexical_cons, lexical_append] at lexical
    exact ⟨condition.shaped lexical.2.1, body.shaped lexical.2.2.2 _⟩
  | .forLoop _ _ initial _ condition _ step _ _ body, lexical => by
    simp only [lexical_cons, lexical_append] at lexical
    obtain ⟨-, -, start, -, test, -, next, -, -, inner⟩ := lexical
    exact shaped_expandedFor _ (initial.shaped start) (condition.shaped test)
      (body.shaped inner _) (step.shaped next)

/-- The tree of what may be a command is shaped, if there is one. -/
theorem OptionalCommand.Spells.shaped {command : OptionalCommand} {used : List Token} :
    command.Spells used → Lexical used → ∀ tree ∈ command.tree?, tree.Shaped
  | .none, _ => nofun
  | .some command, lexical => by
    rintro _ ⟨⟩
    exact command.shaped lexical

/-- The tree of a body is shaped. -/
theorem Body.Spells.shaped {body : Body} {used : List Token} :
    body.Spells used → Lexical used → ∀ emptyAt, (body.tree emptyAt).Shaped
  | @Body.Spells.bare command _ spells, lexical, emptyAt => by
    have shaped := spells.shaped lexical
    rw [Body.tree]
    cases tree : command.tree? with
    | none => trivial
    | some written => exact shaped written tree
  | .braced _ items _, lexical, _ => by
    simp only [lexical_cons, lexical_append] at lexical
    exact Command.shaped_ofItems (items.shaped lexical.2.1) _

/-- The trees of items are shaped. -/
theorem Items.Spells.shaped {items : Items} {used : List Token} :
    items.Spells used → Lexical used → ∀ item ∈ items.list, item.Shaped
  | .nil, _ => List.forall_mem_nil _
  | .declaration first rest, lexical => by
    obtain ⟨here, later⟩ := lexical_append.1 lexical
    exact List.forall_mem_cons.2 ⟨first.shaped here, rest.shaped later⟩
  | .command first rest, lexical => by
    obtain ⟨here, later⟩ := lexical_append.1 lexical
    exact List.forall_mem_cons.2 ⟨first.shaped here, rest.shaped later⟩

/-- The trees of the items after the first one are shaped. -/
theorem Items.SpellsRest.shaped {items : Items} {used : List Token} :
    items.SpellsRest used → Lexical used → ∀ item ∈ items.list, item.Shaped
  | .nil, _ => List.forall_mem_nil _
  | .items _ _ items, lexical => items.shaped (lexical_cons.1 lexical).2

end

end Phrase

/-! ## Programs -/

/-- **The tree of a program is shaped.** -/
theorem parse_shaped {source : String} {program : Command} (accepted : parse source = .ok program) :
    program.Shaped := by
  obtain ⟨-, items, read, rfl⟩ := parse_ok_iff.1 accepted
  have spells := (Phrase.program_ok_iff.1 read).1
  exact Command.shaped_ofItems (spells.shaped (lexical_tokensOf source)) _

end SmallImp
