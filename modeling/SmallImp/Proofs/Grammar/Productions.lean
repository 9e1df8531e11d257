/-
# Declarations, commands and lists of items as languages

The productions of declarations, commands and lists of items as equations of languages, which
terminals their words start with, and that each of them has a word at all.
-/
import SmallImp.Proofs.Grammar.Reading

namespace SmallImp

open Grammar

namespace Grammar

/-! ## The grammar of commands, by first tokens -/

/-- The name and the type of a declaration, in either order. -/
def fieldWords : Language Terminal :=
  single .identifier * (single .colon * language .type) +
    single .colon * (language .type * single .identifier)

theorem language_type : language .type = single .numWord + single .boolWord := by
  rw [language_eq, rule, generated_add, generated_tok, generated_tok]

theorem language_declaration :
    language .declaration =
      (single .letWord + single .constWord) *
        (fieldWords * (single .assign * Level.logic.language)) := by
  rw [language_eq, fieldWords]
  simp only [rule, generated_add, generated_mul, generated_tok, generated_ref,
    Level.language_expression, add_mul, mul_add, mul_assoc]
  ac_rfl

theorem language_body :
    language .body = 1 + language .command +
      single .leftBrace * ((1 + language .sequence) * single .rightBrace) := by
  rw [language_eq]
  simp only [rule, generated_add, generated_mul, generated_tok, generated_ref, generated_opt,
    mul_assoc]

theorem language_sequence :
    language .sequence =
      (language .declaration + language .command) *
        (1 + single .separator * language .sequence) := by
  have items : language .item = language .declaration + language .command := by
    rw [language_eq, rule, generated_add, generated_ref, generated_ref]
  have unfolded : language .sequence =
      language .item * generated (tok .separator * ref .item).star := by
    rw [language_eq, rule, generated_mul, generated_ref]
  calc language .sequence
    _ = language .item * (1 + generated (tok .separator * ref .item) *
          generated (tok .separator * ref .item).star) := by rw [← generated_star, ← unfolded]
    _ = _ := by
      rw [generated_mul, generated_tok, generated_ref, mul_assoc (single _), ← unfolded, items]

/-- What may follow the body of an `if`. -/
def elseWords : Language Terminal := 1 + single .elseWord * language .body

/-- The head of a `for` loop in parentheses and its body, after the word `for`. -/
def forWords : Language Terminal :=
  single .leftParen * ((1 + language .declaration) *
    (single .comma * (Level.logic.language * (single .comma * ((1 + language .command) *
      (single .rightParen * ((1 + single .doWord) * language .body)))))))

theorem language_forCommand : language .forCommand = single .forWord * forWords := by
  have init : language .forInit = language .declaration := by
    rw [language_eq, rule, generated_ref]
  have step : language .forStep = language .command := by rw [language_eq, rule, generated_ref]
  rw [language_eq, forWords]
  simp only [rule, generated_mul, generated_tok, generated_ref, generated_opt,
    Level.language_expression, init, step, mul_assoc]

theorem language_command :
    language .command =
      single .identifier * (single .assign * Level.logic.language) +
      single .ifWord *
        (Level.logic.language * ((1 + single .thenWord) * (language .body * elseWords))) +
      single .whileWord * (Level.logic.language * ((1 + single .doWord) * language .body)) +
      single .printWord * Level.logic.language +
      single .forWord * forWords := by
  calc language .command
    _ = language .assignment + language .ifCommand + language .whileCommand +
          language .printCommand + language .forCommand := by
      rw [language_eq]
      simp only [rule, generated_add, generated_ref]
    _ = _ := by
      rw [language_eq .assignment, language_eq .ifCommand, language_eq .whileCommand,
        language_eq .printCommand, language_forCommand, elseWords]
      simp only [rule, generated_mul, generated_tok, generated_ref, generated_opt,
        Level.language_expression, mul_assoc]

end Grammar

namespace Phrase

theorem startsWith_declaration : StartsWith startsDeclaration (language .declaration) := by
  rw [language_declaration]
  exact ((StartsWith.single rfl).add (.single rfl)).mul _

theorem startsWith_command : StartsWith startsCommand (language .command) := by
  rw [language_command]
  exact (((((StartsWith.single rfl).mul _).add ((StartsWith.single rfl).mul _)).add
    ((StartsWith.single rfl).mul _)).add ((StartsWith.single rfl).mul _)).add
      ((StartsWith.single rfl).mul _)

/-- Whether a terminal starts an item of a list. -/
def startsItem (t : Terminal) : Bool := startsDeclaration t || startsCommand t

theorem startsWith_sequence : StartsWith startsItem (language .sequence) := by
  have declaration : StartsWith startsItem (language .declaration) :=
    startsWith_declaration.mono fun t ht => by simp [startsItem, ht]
  have command : StartsWith startsItem (language .command) :=
    startsWith_command.mono fun t ht => by simp [startsItem, ht]
  rw [language_sequence]
  exact (declaration.add command).mul _

theorem exists_mem_type : ∃ word, word ∈ language .type := by
  rw [language_type]
  exact ⟨[.numWord], .inl rfl⟩

theorem exists_mem_logic : ∃ word, word ∈ Level.logic.language :=
  ⟨_, Level.logic.number_mem_language⟩

theorem nil_mem_one_add (X : Language Terminal) : [] ∈ 1 + X := .inl rfl

theorem nil_mem_elseWords : [] ∈ elseWords := nil_mem_one_add _

theorem nil_mem_body : [] ∈ language .body := by
  rw [language_body]
  exact .inl (.inl rfl)

theorem exists_mem_fieldWords : ∃ word, word ∈ fieldWords := by
  obtain ⟨word, h⟩ := exists_mem_mul (exists_mem_single .identifier)
    (exists_mem_mul (exists_mem_single .colon) exists_mem_type)
  exact ⟨word, .inl h⟩

theorem exists_mem_do : ∃ word, word ∈ (1 + single .doWord) * language .body :=
  exists_mem_mul ⟨_, nil_mem_one_add _⟩ ⟨_, nil_mem_body⟩

theorem exists_mem_forWords : ∃ word, word ∈ forWords :=
  exists_mem_mul (exists_mem_single _) (exists_mem_mul ⟨_, nil_mem_one_add _⟩
    (exists_mem_mul (exists_mem_single _) (exists_mem_mul exists_mem_logic
      (exists_mem_mul (exists_mem_single _) (exists_mem_mul ⟨_, nil_mem_one_add _⟩
        (exists_mem_mul (exists_mem_single _) exists_mem_do))))))

theorem exists_mem_declaration : ∃ word, word ∈ language .declaration := by
  rw [language_declaration]
  exact exists_mem_mul ⟨[.letWord], .inl rfl⟩ (exists_mem_mul exists_mem_fieldWords
    (exists_mem_mul (exists_mem_single _) exists_mem_logic))

theorem exists_mem_command : ∃ word, word ∈ language .command := by
  obtain ⟨word, h⟩ := exists_mem_logic
  rw [language_command]
  exact ⟨.printWord :: word, .inl (.inr (cons_mem_single_mul.2 ⟨rfl, h⟩))⟩

theorem exists_mem_sequence : ∃ word, word ∈ language .sequence := by
  obtain ⟨word, h⟩ := exists_mem_command
  rw [language_sequence]
  exact exists_mem_mul ⟨word, .inr h⟩ ⟨[], nil_mem_one_add _⟩

end Phrase
end SmallImp
