/-
# Names and words

A name is checked in one place and a word is scanned in another, by rules of their own: the name
character by character, the word as the longest lexeme with a table of keywords over it.  They
agree (`ofName_ok_iff`): a name passes the check just if the scanner, given nothing else, makes one
token of it, of an identifier or of a keyword.  So an identifier that is read in a program always
passes.
-/
import SmallImp.Program
import SmallImp.Proofs.Phrase.Shape
import SmallImp.Proofs.Token.Ways

namespace SmallImp

open Scan

namespace Terminal

/-- Whether a terminal is of words: that of identifiers, or a keyword's. -/
def OfWords (t : Terminal) : Prop := t = identifier ∨ t ∈ keywords.map Prod.snd

/-- The lexemes of such a terminal are words. -/
theorem Lexeme.isWord_of_ofWords {t : Terminal} {lexeme : List Char} (h : t.Lexeme lexeme)
    (words : t.OfWords) : Terminal.isWord lexeme = true := by
  cases h with
  | keyword mem => exact (keywords_isWord _ mem).1
  | symbol mem =>
    rcases words with rfl | keyword
    · exact absurd rfl (symbols_terminal _ mem).2
    · obtain ⟨p, mem', rfl⟩ := List.mem_map.1 keyword
      exact absurd rfl ((keywords_apart _ mem').2 _ mem)
  | number =>
    rcases words with ⟨⟨⟩⟩ | keyword
    obtain ⟨p, mem', eq⟩ := List.mem_map.1 keyword
    exact absurd eq (keywords_apart _ mem').1
  | identifier word => exact word

/-- No line end, no semicolon and no separator is a word. -/
theorem OfWords.apart {t : Terminal} (words : t.OfWords) :
    t ≠ separator ∧ ¬ (t = newline ∨ t = semicolon) := by
  rcases words with rfl | keyword
  · decide
  · have apart : ∀ u ∈ keywords.map Prod.snd, u ≠ separator ∧ ¬ (u = newline ∨ u = semicolon) := by
      decide
    exact apart t keyword

/-- The terminal of a word is of words. -/
theorem ofWords_ofWord (word : String) : (ofWord word).OfWords := by
  unfold ofWord
  cases found : keywords.lookup word with
  | none => exact .inl rfl
  | some t => exact .inr (List.mem_map.2 ⟨_, mem_of_lookup found, rfl⟩)

/-- A whole word is the longest lexeme where nothing comes after it. -/
theorem isLongest_of_isWord {word : List Char} (h : isWord word = true) :
    IsLongest (ofWord (String.ofList word)) word word := by
  cases word with
  | nil => cases h
  | cons c rest =>
    have start : isWordStart c = true := (Bool.and_eq_true_iff.1 h).1
    have whole : (c :: rest).takeWhile isWordPart = c :: rest :=
      List.takeWhile_eq_self_iff.2 (isWordPart_of_isWord h)
    have longest : IsLongest _ ((c :: rest).takeWhile isWordPart) _ := isLongest_word start
    rwa [whole] at longest

end Terminal

/-- The check of a name is that of a word. -/
theorem Identifier.isName_eq (name : String) : isName name = Terminal.isWord name.toList := by
  unfold isName Terminal.isWord
  cases name.toList <;> rfl

theorem Identifier.exists_ofName_iff {name : String} {block : Block} :
    (∃ identifier, ofName name block = .ok identifier) ↔ Terminal.isWord name.toList = true := by
  rw [ofName, isName_eq]
  cases Terminal.isWord name.toList <;> simp

/-- The token of a word that stands alone. -/
def Token.ofWord (word : String) : Token :=
  ⟨.ofWord word, word, .origin, Position.origin.advance word.toList⟩

/-- **A word alone is scanned as one token.** -/
theorem scan_of_isWord {name : String} (h : Terminal.isWord name.toList = true) :
    scan name = ⟨[.ofWord name], none⟩ := by
  have longest := Terminal.isLongest_of_isWord h
  have way : Scanned (name.toList ++ []) .origin
      [⟨.ofWord (String.ofList name.toList), String.ofList name.toList, .origin,
        Position.origin.advance name.toList⟩] [] _ :=
    .lexeme (by rwa [List.append_nil]) (.here [] _)
  rw [List.append_nil] at way
  simpa only [String.ofList_toList, Token.ofWord] using scan_of_scanned way

/-- A token that is no line end or semicolon is let through alone. -/
theorem separated_singleton {token : Token} (proper : ¬ token.IsBreak) :
    separated [token] = [token] := by
  have step : Separator.State.initial.step token = _ := if_neg proper
  rw [separated, Separator.State.run, step]
  rfl

/-- **Checking names and scanning words agree.**  A name passes the check just if scanning it alone
gives one token with its text, of an identifier or of a keyword, and just if that token is what is
left of it when separators are settled.  An identifier among the tokens of a program passes. -/
theorem ofName_ok_iff (name : String) (block : Block) :
    ((∃ identifier, Identifier.ofName name block = .ok identifier) ↔
      ∃ token, scan name = ⟨[token], none⟩ ∧ token.text = name ∧ token.terminal.OfWords) ∧
    ((∃ identifier, Identifier.ofName name block = .ok identifier) ↔
      ∃ token, tokensOf name = [token] ∧ (scan name).stop = none ∧ token.text = name ∧
        token.terminal.OfWords) ∧
    ∀ source, ∀ token ∈ tokensOf source, token.terminal = .identifier →
      Identifier.ofName token.text token.block = .ok (Phrase.identifierOf token) := by
  -- whatever is scanned as a token of words is a word
  have isWord {source : String} {token : Token} (mem : token ∈ tokensOf source)
      (words : token.terminal.OfWords) : Terminal.isWord token.text.toList = true := by
    have lexeme := (lexical_tokensOf source token mem words.apart.1).lexeme
    exact lexeme.isWord_of_ofWords words
  simp only [Identifier.exists_ofName_iff]
  refine ⟨⟨fun word => ?_, ?_⟩, ⟨fun word => ?_, ?_⟩, fun source token mem here => ?_⟩
  · exact ⟨.ofWord name, scan_of_isWord word, rfl, Terminal.ofWords_ofWord name⟩
  · rintro ⟨token, scanned, rfl, words⟩
    have mem : token ∈ tokensOf token.text := by
      rw [tokensOf, scanned, separated_singleton words.apart.2]
      exact List.mem_singleton_self token
    exact isWord mem words
  · have words := Terminal.ofWords_ofWord name
    have scanned := scan_of_isWord word
    have alone : separated [.ofWord name] = [.ofWord name] := separated_singleton words.apart.2
    refine ⟨.ofWord name, ?_, congrArg Scan.stop scanned, rfl, words⟩
    rw [tokensOf, scanned, alone]
  · rintro ⟨token, tokens, -, rfl, words⟩
    have mem : token ∈ tokensOf token.text := by
      rw [tokens]
      exact List.mem_singleton_self token
    exact isWord mem words
  · rw [Identifier.ofName, Identifier.isName_eq, isWord mem (.inl here)]
    rfl

/-- A keyword passes; a letter that is not ASCII does not, and neither does a line feed at the
end. -/
example : Identifier.isName "while" = true ∧ Identifier.isName "é" = false ∧
    Identifier.isName "x\n" = false := by
  decide +kernel

end SmallImp
