/-
# The first error is the one reported

`FirstError` says what each error of a text means: which token it is, that the tokens before it
can be continued to a program and with it no more, and where it stands.  Every error that
`parse` reports means that (`firstError_of_parse`), by `program_outcome` for the tokens,
`exists_gap` for the places of separators and `scan_scanned` for the characters.
-/
import SmallImp.Proofs.Grammar.Acceptance
import SmallImp.Proofs.Token.Scanned
import SmallImp.Proofs.Token.Separators

namespace SmallImp

open Grammar

/-- Some tokens can be continued to a program, and with one more they cannot. -/
structure FirstWrong (source : String) (before : List Token) (token : Token) : Prop where
  isPrefix : before ++ [token] <+: tokensOf source
  viable : IsViable (spelling before)
  notViable : ¬ IsViable (spelling (before ++ [token]))

/-- What an error of a text means, when scanning the text came to `rest` at the place `last`. -/
inductive FirstError (source : String) (rest : List Char) (last : Position) :
    SourceError → Prop where
  /-- A token of the text is the first wrong one. -/
  | token {before : List Token} {token : Token} :
      FirstWrong source before token → token ∈ (scan source).tokens →
      FirstError source rest last (.unexpectedToken token.text token.block.first)
  /-- A separator is the first wrong token, and stands where the first one of its gap does. -/
  | separator {before : List Token} (gap : Separator.Gap (scan source).tokens) :
      FirstWrong source before { gap.first with terminal := .separator } →
      separated (gap.earlier ++ [gap.last]) = before →
      FirstError source rest last (.unexpectedSeparator gap.first.block.first)
  /-- The text is scanned to its end, and more tokens could make it a program. -/
  | ending {before : List Token} {token : Token} :
      rest = [] → tokensOf source = before ++ [token] →
      IsViable (spelling (tokensOf source)) → ¬ IsSentence (spelling (tokensOf source)) →
      FirstError source rest last (.unexpectedEnd token.block.first)
  /-- Scanning came to a character that starts no lexeme, and no token before is wrong. -/
  | character {c : Char} :
      rest.head? = some c → Unscannable rest → IsViable (spelling (tokensOf source)) →
      FirstError source rest last (.unexpectedCharacter c last)

theorem isViable_of_isSentence {word : List Terminal} (h : IsSentence word) : IsViable word :=
  ⟨[], by rwa [List.append_nil]⟩

/-- The token that reading a program fails at is the first wrong one. -/
theorem firstWrong_of_outcome {source : String} {token : Token} {rest : List Token}
    (h : Phrase.Outcome (tokensOf source) (.error (token :: rest))) :
    ∃ before, tokensOf source = before ++ token :: rest ∧ FirstWrong source before token := by
  obtain ⟨before, eq, viable, wrong⟩ := h
  refine ⟨before, eq, ⟨⟨rest, by rw [eq, List.append_assoc]; rfl⟩, viable, ?_⟩⟩
  rintro ⟨more, sentence⟩
  rw [spelling_append, List.append_assoc] at sentence
  exact wrong (token.terminal :: more) rfl sentence

/-- Where tokens run out, they can be continued to a program. -/
theorem isViable_of_outcome {tokens : List Token} (h : Phrase.Outcome tokens (.error [])) :
    IsViable (spelling tokens) := by
  obtain ⟨used, eq, viable, -⟩ := h
  rwa [eq, List.append_nil]

/-- The error for a wrong token means that the token is the first wrong one. -/
theorem firstError_ofToken {source : String} {rest : List Char} {last : Position}
    (scanned : Scanned source.toList .origin (scan source).tokens rest last)
    {token : Token} {after : List Token}
    (outcome : Phrase.Outcome (tokensOf source) (.error (token :: after))) :
    FirstError source rest last (.ofToken token) := by
  obtain ⟨before, eq, wrong⟩ := firstWrong_of_outcome outcome
  unfold SourceError.ofToken
  split
  case isTrue isSeparator =>
    obtain ⟨gap, rfl, separated⟩ :=
      Separator.exists_gap scanned.terminal_ne_separator isSeparator eq
    exact .separator gap wrong separated
  case isFalse proper =>
    have mem : token ∈ tokensOf source := by simp [eq]
    exact .token wrong (Separator.mem_of_mem_separated mem proper)

/-- The error for an end that comes too early means that more tokens could make a program. -/
theorem firstError_ending {source : String} {rest : List Char} {last : Position}
    (ended : rest = []) (outcome : Phrase.Outcome (tokensOf source) (.error [])) :
    FirstError source rest last (.unexpectedEnd (endPlace (tokensOf source))) := by
  have viable := isViable_of_outcome outcome
  have no := outcome.not_isSentence
  obtain ⟨token, got⟩ : ∃ token, (tokensOf source).getLast? = some token := by
    cases got : (tokensOf source).getLast? with
    | none =>
      rw [List.getLast?_eq_none_iff.1 got] at no
      exact absurd (Phrase.isSentence_iff.2 (.inl rfl)) no
    | some token => exact ⟨token, rfl⟩
  obtain ⟨before, eq⟩ := List.getLast?_eq_some_iff.1 got
  rw [endPlace, got]
  exact .ending ended eq viable no

/-- **The first error in the order of the text is the one reported, at its place.**  The tokens
of the text are those on a way by blanks and longest lexemes, and what the error means is said
of them and of the character that the way comes to. -/
theorem firstError_of_parse (source : String) (error : SourceError)
    (failed : parse source = .error error) :
    ∃ rest last, Scanned source.toList .origin (scan source).tokens rest last ∧
      FirstError source rest last error := by
  obtain ⟨rest, last, scanned, stopped⟩ := scan_scanned source
  refine ⟨rest, last, scanned, ?_⟩
  have outcome := Phrase.program_outcome (tokensOf source)
  rw [parse_eq] at failed
  have character {c : Char} {place : Position} (stop : (scan source).stop = some (c, place))
      (viable : IsViable (spelling (tokensOf source))) :
      FirstError source rest last (.unexpectedCharacter c place) := by
    rw [stop] at stopped
    obtain ⟨rfl, head, unscannable⟩ := stopped
    exact .character head unscannable viable
  cases result : Phrase.program (tokensOf source) with
  | ok items =>
    rw [result] at failed outcome
    cases stop : (scan source).stop with
    | none => rw [stop] at failed; cases failed
    | some stopAt =>
      rw [stop] at failed
      cases failed
      exact character stop (isViable_of_isSentence outcome)
  | error remaining =>
    rw [result] at failed outcome
    cases remaining with
    | cons token after =>
      cases failed
      exact firstError_ofToken scanned outcome
    | nil =>
      cases stop : (scan source).stop with
      | none =>
        rw [stop] at failed stopped
        cases failed
        exact firstError_ending stopped outcome
      | some stopAt =>
        rw [stop] at failed
        cases failed
        exact character stop (isViable_of_outcome outcome)

/-- The separator after `=` is the first wrong token, though `else` is out of place too; it
stands at the line end, the first of its gap. -/
theorem firstError_of_parse_separator :
    parse "x =\n; 5 else" = .error (.unexpectedSeparator ⟨1, 4⟩) ∧
      ∃ rest last, Scanned "x =\n; 5 else".toList .origin (scan "x =\n; 5 else").tokens rest last ∧
        FirstError "x =\n; 5 else" rest last (.unexpectedSeparator ⟨1, 4⟩) := by
  have failed : parse "x =\n; 5 else" = .error (.unexpectedSeparator ⟨1, 4⟩) := by
    have found : (parse "x =\n; 5 else").map (fun _ => ()) =
        .error (.unexpectedSeparator ⟨1, 4⟩) := by
      decide +kernel
    cases result : parse "x =\n; 5 else" with
    | ok tree => rw [result] at found; cases found
    | error error => rw [result] at found; rw [Except.error.inj found]
  exact ⟨failed, firstError_of_parse _ _ failed⟩

end SmallImp
