/-
# Exactly the sentences of the grammar are programs

`program_outcome` is what the whole reader promises of any list of tokens: it accepts sentences
only, and where it fails, the tokens before the place can be continued to a sentence, while with
the token there they cannot.  Since a sentence can be continued by nothing at all, a list that
is refused is no sentence, and so the texts that are accepted are those whose tokens make up a
sentence (`parse_ok_iff_isSentence`).
-/
import SmallImp.Program
import SmallImp.Proofs.Grammar.Commands

namespace SmallImp

open Grammar

/-- The tokens of a source text that reach the grammar, up to a character that starts none. -/
def tokensOf (source : String) : List Token := separated (scan source).tokens

namespace Phrase

theorem isSentence_iff {word : List Terminal} :
    IsSentence word ↔ word = [] ∨ word ∈ language .sequence := by
  rw [IsSentence, language_eq, rule, generated_opt, generated_ref, Language.mem_add,
    Language.mem_one]

/-- What the outcome of reading a program says of the tokens. -/
def Outcome (tokens : List Token) : Except (List Token) Items → Prop
  | .ok _ => IsSentence (spelling tokens)
  | .error rest => ∃ used, tokens = used ++ rest ∧ IsViable (spelling used) ∧
      ∀ w, Agrees w rest → ¬ IsSentence (spelling used ++ w)

/-- **Reading a program accepts sentences, and fails at the first token that makes one
impossible.** -/
theorem program_outcome (tokens : List Token) : Outcome tokens (program tokens) := by
  cases tokens with
  | nil => exact isSentence_iff.2 (.inl rfl)
  | cons token rest =>
    have reads := (commandsRead (fuelFor (token :: rest))).items (token :: rest)
      (by simp only [fuelFor]; omega)
    -- the tokens are the whole text, so nothing stands after the items
    have ending : Ending 1 := fun t more hw => by cases hw
    have whole {used : List Token} {w : List Terminal}
        (nonempty : spelling used ++ w ≠ []) (hw : IsSentence (spelling used ++ w)) :
        spelling used ++ w ∈ language .sequence * 1 := by
      rw [mul_one]
      exact (isSentence_iff.1 hw).resolve_left nonempty
    have nonempty {used rest' : List Token} (eq : token :: rest = used ++ rest')
        {w : List Terminal} (agrees : Agrees w rest') : spelling used ++ w ≠ [] := fun none => by
      have := agrees.append used
      rw [none, ← eq] at this
      cases this
    rw [program, List.isEmpty_cons, if_neg Bool.false_ne_true]
    cases result : items (fuelFor (token :: rest)) (token :: rest) with
    | read phrase rest' =>
      rw [result] at reads
      obtain ⟨used, eq, mem, exact_⟩ := reads
      have exact_ := exact_ 1 ending
      cases rest' with
      | nil =>
        rw [List.append_nil] at eq
        exact isSentence_iff.2 (.inr (eq ▸ mem))
      | cons next rest' =>
        refine ⟨used, eq, ⟨[], ?_⟩, fun w agrees hw => ?_⟩
        · rw [List.append_nil]
          exact isSentence_iff.2 (.inr mem)
        · obtain rfl : w = [] := exact_ w agrees (whole (nonempty eq agrees) hw)
          cases agrees
    | failed rest' =>
      rw [result] at reads
      obtain ⟨used, eq, ⟨more, viable⟩, wrong⟩ := reads
      exact ⟨used, eq, ⟨more, isSentence_iff.2 (.inr viable)⟩, fun w agrees hw =>
        wrong 1 ending w agrees (whole (nonempty eq agrees) hw)⟩

/-- A list of tokens that is refused is no sentence. -/
theorem Outcome.not_isSentence {tokens rest : List Token} (h : Outcome tokens (.error rest)) :
    ¬ IsSentence (spelling tokens) := by
  obtain ⟨used, rfl, -, wrong⟩ := h
  rw [spelling_append]
  exact wrong (spelling rest) rfl

end Phrase

open Phrase

/-- What a text is parsed to, by the outcome of reading its tokens. -/
theorem parse_eq (source : String) :
    parse source = match program (tokensOf source), (scan source).stop with
      | .error (token :: _), _ => .error (.ofToken token)
      | _, some (c, place) => .error (.unexpectedCharacter c place)
      | .error [], none => .error (.unexpectedEnd (endPlace (tokensOf source)))
      | .ok items, none => .ok items.tree := by
  simp only [parse, phrasesOf, tokensOf]
  cases program (separated (scan source).tokens) with
  | ok items => cases (scan source).stop <;> rfl
  | error rest => cases rest <;> cases (scan source).stop <;> rfl

/-- A text is a program if it is all lexemes and its tokens make one up. -/
theorem parse_ok_iff {source : String} {tree : Command} :
    parse source = .ok tree ↔ (scan source).stop = none ∧
      ∃ items, program (tokensOf source) = .ok items ∧ items.tree = tree := by
  rw [parse_eq]
  cases program (tokensOf source) with
  | ok items => cases (scan source).stop <;> simp
  | error rest => cases rest <;> cases (scan source).stop <;> simp

/-- **A text is a program just if its tokens make up a sentence of the grammar.**  A text of
lexemes alone that is no program has an error of the grammar. -/
theorem parse_ok_iff_isSentence (source : String) (scanned : (scan source).stop = none) :
    ((∃ tree, parse source = .ok tree) ↔ IsSentence (spelling (tokensOf source))) ∧
      (¬ IsSentence (spelling (tokensOf source)) →
        ∃ error, parse source = .error error ∧ error.phase = .grammatical) := by
  have outcome := program_outcome (tokensOf source)
  have parsed := parse_eq source
  rw [scanned] at parsed
  cases result : program (tokensOf source) with
  | ok items =>
    rw [result] at outcome parsed
    exact ⟨⟨fun _ => outcome, fun _ => ⟨_, parsed⟩⟩, fun no => absurd outcome no⟩
  | error rest =>
    rw [result] at outcome parsed
    have no := outcome.not_isSentence
    -- the error is one of the grammar, at a token or at the end
    obtain ⟨error, failed, phase⟩ :
        ∃ error, parse source = .error error ∧ error.phase = .grammatical := by
      cases rest with
      | nil => exact ⟨_, parsed, rfl⟩
      | cons token rest =>
        refine ⟨_, parsed, ?_⟩
        rw [SourceError.ofToken]
        split <;> rfl
    refine ⟨⟨?_, fun yes => absurd yes no⟩, fun _ => ⟨error, failed, phase⟩⟩
    rintro ⟨tree, ok⟩
    rw [failed] at ok
    cases ok

/-- A text whose two `if`s could share their `else` out in two ways is a program, and it is
one because its tokens make up a sentence. -/
theorem parse_ok_dangling_else :
    (scan "if a then if b then c = 1\nelse c = 2").stop = none ∧
      ((∃ tree, parse "if a then if b then c = 1\nelse c = 2" = .ok tree) ↔
        IsSentence [.ifWord, .identifier, .thenWord, .ifWord, .identifier, .thenWord,
          .identifier, .assign, .number, .elseWord, .identifier, .assign, .number]) := by
  have scanned : (scan "if a then if b then c = 1\nelse c = 2").stop = none := by
    decide +kernel
  have tokens : spelling (tokensOf "if a then if b then c = 1\nelse c = 2") =
      [.ifWord, .identifier, .thenWord, .ifWord, .identifier, .thenWord,
        .identifier, .assign, .number, .elseWord, .identifier, .assign, .number] := by
    decide +kernel
  exact ⟨scanned, tokens ▸ (parse_ok_iff_isSentence _ scanned).1⟩

end SmallImp
