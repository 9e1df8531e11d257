/-
# The kind of line ends does not matter

No reader looks at the text of a separator.  So a phrase that some tokens spell is spelled by the
trimmed tokens as well (`Items.Spells.trimmed`), and tokens that are trimmed to the same make up the
same program, with all its blocks (`program_ok_of_trimmed_eq`).

Where reading fails is a matter of the terminals alone: up to that token the tokens can be continued
to a program, and with it they cannot (`program_error_of_spelling_eq`).  So errors come up at the
same token as well, and a text with carriage returns before its line feeds is parsed to just what
the text is parsed to (`parse_withReturns`).
-/
import SmallImp.Proofs.Phrase.Commands
import SmallImp.Proofs.Phrase.Places
import SmallImp.Proofs.Token.LineEnds

namespace SmallImp

/-! ## Expressions -/

theorem Level.ne_newline_of_hasOperator {ℓ : Level} {t : Terminal} (h : ℓ.hasOperator t = true) :
    t ≠ .newline := by
  rintro rfl
  cases ℓ <;> cases h

/-- No token of an expression is trimmed. -/
theorem Level.Spells.map_trimmed {ℓ : Level} {e : Expr} {tokens : List Token}
    (h : ℓ.Spells e tokens) : tokens.map Token.trimmed = tokens := by
  induction h with
  | number here | name here =>
    rw [List.map_singleton, Token.trimmed_eq_self (by simp [here]) (by simp [here])]
  | boolean here =>
    rcases here with here | here <;>
      rw [List.map_singleton, Token.trimmed_eq_self (by simp [here]) (by simp [here])]
  | parenthesis opens _ closes ih =>
    rw [List.map_cons, List.map_append, List.map_singleton, ih,
      Token.trimmed_eq_self (by simp [opens]) (by simp [opens]),
      Token.trimmed_eq_self (by simp [closes]) (by simp [closes])]
  | tighter _ _ ih => exact ih
  | leading _ here _ ih =>
    rw [List.map_cons, ih, Token.trimmed_eq_self (ne_newline_of_hasOperator here)
      (ne_separator_of_hasOperator here)]
  | binary _ _ here _ ih ih' =>
    rw [List.map_append, List.map_cons, ih, ih', Token.trimmed_eq_self
      (ne_newline_of_hasOperator here) (ne_separator_of_hasOperator here)]

namespace Phrase

/-! ## Declarations and commands -/

/-- A token of a terminal that is no line end and no separator is not trimmed. -/
theorem trimmed_of {token : Token} {t : Terminal} (here : token.terminal = t)
    (proper : t ≠ .newline ∧ t ≠ .separator := by decide) : token.trimmed = token :=
  Token.trimmed_eq_self (here ▸ proper.1) (here ▸ proper.2)

theorem NamesType.trimmed {written : TypeName} {token : Token} (h : NamesType written token) :
    token.trimmed = token := by
  cases h with
  | number here | boolean here => exact trimmed_of here

theorem SpellsFields.map_trimmed {nameFirst : Bool} {name : Identifier} {written : TypeName}
    {head : List Token} (h : SpellsFields nameFirst name written head) :
    head.map Token.trimmed = head := by
  cases h with
  | nameFirst here colon type | typeFirst colon type here =>
    simp [trimmed_of here, trimmed_of colon, type.trimmed]

theorem Declaration.Spells.map_trimmed {declaration : Declaration} {used : List Token}
    (h : declaration.Spells used) : used.map Token.trimmed = used := by
  cases h with
  | @mk word assign _ _ _ _ _ _ starts fields equals value =>
    have start : word.trimmed = word := by
      refine Token.trimmed_eq_self ?_ ?_ <;> intro same <;> rw [same] at starts <;> cases starts
    simp [start, fields.map_trimmed, trimmed_of equals, value.map_trimmed]

theorem SpellsInitial.map_trimmed {initial : Option Declaration} {used : List Token}
    (h : SpellsInitial initial used) : used.map Token.trimmed = used := by
  cases h with
  | none => rfl
  | some spells => exact spells.map_trimmed

theorem SpellsWord.map_trimmed {t : Terminal} {written : Option Block} {used : List Token}
    (h : SpellsWord t written used) (proper : t ≠ .newline ∧ t ≠ .separator := by decide) :
    used.map Token.trimmed = used := by
  cases h with
  | none => rfl
  | some here => rw [List.map_singleton, trimmed_of here proper]

mutual

/-- **The trimmed tokens of a command spell it.** -/
theorem Command.Spells.trimmed {command : Command} {used : List Token} :
    command.Spells used → command.Spells (used.map Token.trimmed)
  | .assign name assign value => by
    rw [List.map_cons, List.map_cons, trimmed_of name, trimmed_of assign, value.map_trimmed]
    exact .assign name assign value
  | .print word value => by
    rw [List.map_cons, trimmed_of word, value.map_trimmed]
    exact .print word value
  | .ifThen word condition optional body => by
    simp only [List.map_cons, List.map_append, trimmed_of word, condition.map_trimmed,
      optional.map_trimmed]
    exact .ifThen word condition optional body.trimmed
  | .ifElse word condition optional body other otherwise => by
    simp only [List.map_cons, List.map_append, trimmed_of word, condition.map_trimmed,
      optional.map_trimmed, trimmed_of other]
    exact .ifElse word condition optional body.trimmed other otherwise.trimmed
  | .whileLoop word condition optional body => by
    simp only [List.map_cons, List.map_append, trimmed_of word, condition.map_trimmed,
      optional.map_trimmed]
    exact .whileLoop word condition optional body.trimmed
  | .forLoop word opens initial comma condition comma' step closes optional body => by
    simp only [List.map_cons, List.map_append, trimmed_of word, trimmed_of opens,
      initial.map_trimmed, trimmed_of comma, condition.map_trimmed, trimmed_of comma',
      trimmed_of closes, optional.map_trimmed]
    exact .forLoop word opens initial comma condition comma' step.trimmed closes optional
      body.trimmed

/-- The trimmed tokens of what may be a command spell it. -/
theorem OptionalCommand.Spells.trimmed {command : OptionalCommand} {used : List Token} :
    command.Spells used → command.Spells (used.map Token.trimmed)
  | .none => .none
  | .some command => .some command.trimmed

/-- The trimmed tokens of a body spell it. -/
theorem Body.Spells.trimmed {body : Body} {used : List Token} :
    body.Spells used → body.Spells (used.map Token.trimmed)
  | .bare command => .bare command.trimmed
  | .braced opens items closes => by
    simp only [List.map_cons, List.map_append, List.map_nil, trimmed_of opens, trimmed_of closes]
    exact .braced opens items.trimmed closes

/-- The trimmed tokens of items spell them. -/
theorem Items.Spells.trimmed {items : Items} {used : List Token} :
    items.Spells used → items.Spells (used.map Token.trimmed)
  | .nil => .nil
  | .declaration first rest => by
    rw [List.map_append, first.map_trimmed]
    exact .declaration first rest.trimmed
  | .command first rest => by
    rw [List.map_append]
    exact .command first.trimmed rest.trimmed

/-- The trimmed tokens of the items after the first one spell them. -/
theorem Items.SpellsRest.trimmed {items : Items} {used : List Token} :
    items.SpellsRest used → items.SpellsRest (used.map Token.trimmed)
  | .nil => .nil
  | @Items.SpellsRest.items separator _ _ here nonempty items =>
    .items ((Token.terminal_trimmed separator).trans here) nonempty items.trimmed

end

/-! ## Programs -/

section
variable {tokens tokens' : List Token}

/-- Trimming leaves the terminals. -/
theorem spelling_eq_of_trimmed_eq (same : tokens.map Token.trimmed = tokens'.map Token.trimmed) :
    spelling tokens = spelling tokens' := by
  have trimmed (list : List Token) : spelling list = spelling (list.map Token.trimmed) := by
    simp [spelling, Function.comp_def]
  rw [trimmed tokens, same, ← trimmed]

/-- **Tokens that are trimmed to the same make up the same program**, with its blocks. -/
theorem program_ok_of_trimmed_eq {items : Items} (accepted : program tokens = .ok items)
    (same : tokens.map Token.trimmed = tokens'.map Token.trimmed) :
    program tokens' = .ok items := by
  obtain ⟨items', accepted'⟩ :=
    program_ok_of_spelling_eq accepted (spelling_eq_of_trimmed_eq same)
  -- the trimmed tokens make up both programs
  have trimmed {tokens : List Token} {items : Items} (accepted : program tokens = .ok items) :
      program (tokens.map Token.trimmed) = .ok items := by
    obtain ⟨spells, settled⟩ := program_ok_iff.1 accepted
    exact program_ok_iff.2 ⟨spells.trimmed, settled⟩
  have both := (trimmed accepted).symm.trans (same ▸ trimmed accepted')
  rw [accepted', Except.ok.inj both]

open Grammar in
/-- Tokens that can be continued do not go beyond a token that makes any program impossible. -/
theorem length_le_of_wrong {used rest used' rest' : List Token}
    (wrong : ∀ w, Agrees w rest → ¬ IsSentence (spelling used ++ w))
    (viable : IsViable (spelling used'))
    (same : spelling (used ++ rest) = spelling (used' ++ rest')) :
    used'.length ≤ used.length := by
  have length (list : List Token) : (spelling list).length = list.length := List.length_map ..
  rw [spelling_append, spelling_append] at same
  rw [← length used', ← length used]
  rcases List.append_eq_append_iff.1 same with ⟨more, longer, split⟩ | ⟨more, shorter, -⟩
  · cases more with
    | nil => rw [longer, List.append_nil]
    | cons t more =>
      obtain ⟨after, sentence⟩ := viable
      rw [longer, List.append_assoc] at sentence
      have agrees : Agrees (t :: more ++ after) rest := by
        rw [Agrees, split]
        rfl
      exact absurd sentence (wrong _ agrees)
  · rw [shorter, List.length_append]
    exact Nat.le_add_right _ _

/-- **Where reading fails is a matter of the terminals.** -/
theorem program_error_of_spelling_eq {rest : List Token} (failed : program tokens = .error rest)
    (same : spelling tokens = spelling tokens') :
    ∃ used used' rest', tokens = used ++ rest ∧ tokens' = used' ++ rest' ∧
      used.length = used'.length ∧ program tokens' = .error rest' := by
  have outcome := program_outcome tokens
  have outcome' := program_outcome tokens'
  rw [failed] at outcome
  cases failed' : program tokens' with
  | ok items =>
    rw [failed'] at outcome'
    have sentence : Grammar.IsSentence (spelling tokens) := same ▸ outcome'
    exact absurd sentence outcome.not_isSentence
  | error rest' =>
    rw [failed'] at outcome'
    obtain ⟨used, rfl, viable, wrong⟩ := outcome
    obtain ⟨used', rfl, viable', wrong'⟩ := outcome'
    have shorter := length_le_of_wrong wrong' viable same.symm
    have longer := length_le_of_wrong wrong viable' same
    exact ⟨used, used', rest', rfl, rfl, Nat.le_antisymm shorter longer, rfl⟩

/-- Reading fails at the same token, if tokens are trimmed to the same. -/
theorem program_error_of_trimmed_eq {rest : List Token} (failed : program tokens = .error rest)
    (same : tokens.map Token.trimmed = tokens'.map Token.trimmed) :
    ∃ rest', program tokens' = .error rest' ∧ rest <:+ tokens ∧
      rest.map Token.trimmed = rest'.map Token.trimmed := by
  obtain ⟨used, used', rest', rfl, rfl, length, failed'⟩ :=
    program_error_of_spelling_eq failed (spelling_eq_of_trimmed_eq same)
  rw [List.map_append, List.map_append] at same
  have length : (used.map Token.trimmed).length = (used'.map Token.trimmed).length := by
    rw [List.length_map, List.length_map, length]
  exact ⟨rest', failed', List.suffix_append used rest, (List.append_inj same length).2⟩

end

end Phrase

open Phrase

/-! ## Errors -/

/-- The text of a separator is not in the error for it. -/
theorem SourceError.ofToken_eq {token token' : Token} (same : token.trimmed = token'.trimmed)
    (proper : token.terminal ≠ .newline) : ofToken token = ofToken token' := by
  have terminal : token.terminal = token'.terminal := by
    rw [← token.terminal_trimmed, same, token'.terminal_trimmed]
  have block : token.block = token'.block := by
    rw [← token.block_trimmed, same, token'.block_trimmed]
  by_cases separator : token.terminal = .separator
  · rw [ofToken, ofToken, if_pos separator, if_pos (terminal ▸ separator), block]
  · rw [Token.trimmed_eq_self proper separator,
      Token.trimmed_eq_self (terminal ▸ proper) (terminal ▸ separator)] at same
    rw [same]

/-- The end of an input is said to be at the same place. -/
theorem endPlace_eq {tokens tokens' : List Token}
    (same : tokens.map Token.trimmed = tokens'.map Token.trimmed) :
    endPlace tokens = endPlace tokens' := by
  have place (tokens : List Token) : endPlace tokens = endPlace (tokens.map Token.trimmed) := by
    rw [endPlace, endPlace, List.getLast?_map]
    cases tokens.getLast? <;> simp
  rw [place tokens, same, ← place]

/-- **The kind of line ends does not matter.**  A text without carriage returns and the same text
with one before each line feed are parsed to the same: to one tree, with all its blocks, or to one
error, at one place. -/
theorem parse_withReturns {source : String} (plain : '\r' ∉ source.toList) :
    parse (String.ofList (withReturns source.toList)) = parse source := by
  obtain ⟨scanned, stop⟩ := scan_withReturns plain
  have same := trimmed_separated scanned
  rw [← tokensOf, ← tokensOf] at same
  rw [parse_eq, parse_eq source, stop]
  cases result : program (tokensOf source) with
  | ok items =>
    rw [program_ok_of_trimmed_eq result same.symm]
    cases (scan source).stop <;> rfl
  | error rest =>
    obtain ⟨rest', failed, inside, rests⟩ := program_error_of_trimmed_eq result same.symm
    rw [failed]
    cases rest with
    | nil =>
      obtain rfl : rest' = [] := by simpa using rests.symm
      rw [endPlace_eq same]
    | cons token rest =>
      cases rest' with
      | nil => cases rests
      | cons token' rest' =>
        have first : token.trimmed = token'.trimmed := (List.cons.inj rests).1
        have proper : ¬ token.IsBreak :=
          Separator.State.initial.not_isBreak_of_mem_run (inside.subset List.mem_cons_self)
        have error := SourceError.ofToken_eq first fun lineEnd => proper (.inl lineEnd)
        exact congrArg Except.error error.symm

/-- Line ends in parentheses and between commands, and one after `=` that is out of place. -/
theorem parse_withReturns_error :
    '\r' ∉ "x = (1\n+ 2)\n\ny =\n5".toList ∧
      parse "x = (1\r\n+ 2)\r\n\r\ny =\r\n5" = parse "x = (1\n+ 2)\n\ny =\n5" ∧
      (parse "x = (1\n+ 2)\n\ny =\n5").map (fun _ => ()) =
        .error (.unexpectedSeparator ⟨4, 4⟩) := by
  have plain : '\r' ∉ "x = (1\n+ 2)\n\ny =\n5".toList := by decide
  have same := parse_withReturns plain
  have text : String.ofList (withReturns "x = (1\n+ 2)\n\ny =\n5".toList) =
      "x = (1\r\n+ 2)\r\n\r\ny =\r\n5" := by decide +kernel
  rw [text] at same
  exact ⟨plain, same, by decide +kernel⟩

end SmallImp
