/-
# Tokens tile a text

A text is taken apart into tiles, each a run of blanks and a token, up to where neither a blank nor
a lexeme starts (`Tiling`).  Each token is the longest lexeme where it stands, no blank is left in
one, and its block is found by counting in the text before it: line feeds for the line, characters
since the last line feed for the column (`Position.after`).  `scan_eq_iff` says that scanning is
to take a text apart in this way, and that there is one way to do so.
-/
import SmallImp.Proofs.Token.Ways

namespace SmallImp

open Scan

/-! ## Places by counting -/

namespace Position

/-- The place after a text: one line more than it has line feeds, and one column more than it has
characters since the last of them. -/
def after (text : List Char) : Position :=
  ⟨1 + text.count '\n', 1 + (text.reverse.takeWhile (· != '\n')).length⟩

/-- One character more. -/
theorem next_after (text : List Char) (c : Char) : (after text).next c = after (text ++ [c]) := by
  rw [next]
  by_cases lineFeed : c = '\n'
  · simp [after, lineFeed]
    omega
  · have other : text.count '\n' = (text ++ [c]).count '\n' := by simp [lineFeed]
    simp [after, lineFeed]
    omega

/-- **Walking on is counting on.** -/
theorem advance_after (before text : List Char) :
    (after before).advance text = after (before ++ text) := by
  induction text generalizing before with
  | nil => rw [List.append_nil]; rfl
  | cons c text ih =>
    have step : (after before).advance (c :: text) = (after (before ++ [c])).advance text := by
      rw [← next_after]
      rfl
    rw [step, ih, List.append_assoc, List.singleton_append]

end Position

/-! ## Words and keywords -/

namespace Terminal

variable {t : Terminal} {lexeme text : List Char}

/-- **A keyword is chosen just if the whole lexeme is that word.** -/
theorem IsLongest.eq_keyword_iff (h : t.IsLongest lexeme text) {word : String} {u : Terminal}
    (mem : (word, u) ∈ keywords) : t = u ↔ lexeme = word.toList := by
  constructor
  · rintro rfl
    exact h.isLexeme.eq_of_mem_keywords mem
  · rintro rfl
    have proper := (keywords_isWord _ mem).2.2
    have other : t ≠ identifier := fun same => proper (h.noKeyword same (.keyword mem))
    exact h.isLexeme.terminal_unique (.keyword mem) other proper

/-- **An identifier is chosen just if the lexeme is a word that is no keyword.** -/
theorem IsLongest.eq_identifier_iff (h : t.IsLongest lexeme text) :
    t = identifier ↔ isWord lexeme = true ∧ ∀ p ∈ keywords, lexeme ≠ p.1.toList := by
  constructor
  · rintro rfl
    refine ⟨?_, fun p mem same => ?_⟩
    · generalize identifier_eq : identifier = u at h
      cases h.isLexeme with
      | keyword mem => exact (keywords_isWord _ mem).1
      | symbol mem =>
        have apart : ∀ p ∈ symbols, p.2 ≠ identifier := by decide
        exact absurd identifier_eq.symm (apart _ mem)
      | number => cases identifier_eq
      | identifier word => exact word
    · exact (keywords_isWord _ mem).2.2 ((h.eq_keyword_iff mem).2 same).symm
  · rintro ⟨word, noKeyword⟩
    cases h.isLexeme with
    | keyword mem => exact absurd rfl (noKeyword _ mem)
    | symbol mem =>
      cases lexeme with
      | nil => cases word
      | cons c rest => simp [isWord, (head_of_mem_symbols mem).1] at word
    | number number =>
      cases lexeme with
      | nil => cases word
      | cons c rest => simp [isWord, isWordStart_eq_false number.head_isDigit] at word
    | identifier => rfl

/-- There is no blank in a lexeme. -/
theorem Lexeme.isBlank_eq_false (h : t.Lexeme lexeme) {c : Char} (mem : c ∈ lexeme) :
    isBlank c = false := by
  by_contra blank
  have blank : isBlank c = true := by simpa using blank
  obtain ⟨before, after, rfl⟩ := List.append_of_mem mem
  rcases h.before_layout (mem_layout_of_isBlank blank) with rfl | rfl
  · exact not_lexeme_blank blank t after h
  · have symbol := h.mem_symbols (by decide) (by decide)
    have lineEnd := symbols_layout symbol (mem_layout_of_isBlank blank) (by simp)
    obtain ⟨rfl, -⟩ := List.cons.inj (List.cons.inj lineEnd).2
    cases blank

end Terminal

/-! ## Tiles -/

/-- A run of blanks and the token after it. -/
structure Tile where
  blanks : List Char
  token : Token

namespace Tile

/-- The characters of the token of a tile. -/
def lexeme (tile : Tile) : List Char := tile.token.text.toList

/-- The text that a tile covers. -/
def text (tile : Tile) : List Char := tile.blanks ++ tile.lexeme

/-- What is so of a tile that stands after one text and before another. -/
structure Fits (tile : Tile) (before after : List Char) : Prop where
  isBlank : ∀ c ∈ tile.blanks, isBlank c = true
  /-- The run of blanks ends where the token starts, and none starts before the token ends. -/
  noBlank : ∀ c ∈ tile.lexeme, Scan.isBlank c = false
  /-- No terminal matches more. -/
  longest : tile.token.terminal.IsLongest tile.lexeme (tile.lexeme ++ after)
  /-- The terminal is that of a word just if the token is that word. -/
  keyword : ∀ word terminal, (word, terminal) ∈ Terminal.keywords →
    (tile.token.terminal = terminal ↔ tile.lexeme = word.toList)
  /-- The terminal is that of identifiers just if the token is any other word. -/
  identifier : tile.token.terminal = .identifier ↔
    Terminal.isWord tile.lexeme = true ∧ ∀ p ∈ Terminal.keywords, tile.lexeme ≠ p.1.toList
  first : tile.token.block.first = .after (before ++ tile.blanks)
  last : tile.token.block.last = .after (before ++ tile.blanks ++ tile.lexeme)

end Tile

/-- Whether tiles fit one after the other, after one text and before another. -/
def Tiled (before : List Char) : List Tile → List Char → Prop
  | [], _ => True
  | tile :: tiles, after =>
    tile.Fits before (tiles.flatMap Tile.text ++ after) ∧ Tiled (before ++ tile.text) tiles after

/-- A text taken apart into tiles, blanks after the last of them, and what can be no tile. -/
structure Tiling (source : List Char) (tiles : List Tile) (blanks rest : List Char) : Prop where
  eq : source = tiles.flatMap Tile.text ++ (blanks ++ rest)
  tiled : Tiled [] tiles (blanks ++ rest)
  isBlank : ∀ c ∈ blanks, isBlank c = true
  /-- Neither a blank nor a lexeme of any terminal starts what is left. -/
  unscannable : Unscannable rest

/-- The token of a longest lexeme is a tile where it stands. -/
theorem Tile.fits_of_isLongest {t : Terminal} {lexeme after : List Char} (before : List Char)
    (longest : t.IsLongest lexeme (lexeme ++ after)) :
    Tile.Fits ⟨[], ⟨t, String.ofList lexeme, .after before, .after (before ++ lexeme)⟩⟩ before
      after := by
  have same : (String.ofList lexeme).toList = lexeme := String.toList_ofList
  refine ⟨List.forall_mem_nil _, ?_, ?_, ?_, ?_, ?_, ?_⟩
  · intro c mem
    rw [Tile.lexeme, same] at mem
    exact longest.isLexeme.isBlank_eq_false mem
  · rwa [Tile.lexeme, same]
  · intro word terminal mem
    rw [Tile.lexeme, same]
    exact longest.eq_keyword_iff mem
  · rw [Tile.lexeme, same]
    exact longest.eq_identifier_iff
  · rw [List.append_nil]
  · rw [List.append_nil, Tile.lexeme, same]

/-- A tile fits with one more blank in front. -/
theorem Tile.Fits.cons {tile : Tile} {before after : List Char} {c : Char}
    (h : tile.Fits (before ++ [c]) after) (blank : Scan.isBlank c = true) :
    Tile.Fits ⟨c :: tile.blanks, tile.token⟩ before after where
  isBlank := List.forall_mem_cons.2 ⟨blank, h.isBlank⟩
  noBlank := h.noBlank
  longest := h.longest
  keyword := h.keyword
  identifier := h.identifier
  first := by simpa using h.first
  last := by simpa [Tile.lexeme] using h.last

/-- **The tokens on a way over a text are those of tiles**, and the way comes to the place after
them. -/
theorem Scanned.exists_tiled {text rest : List Char} {place last : Position}
    {tokens : List Token} (h : Scanned text place tokens rest last) :
    ∀ before : List Char, place = .after before → ∃ tiles blanks,
      text = tiles.flatMap Tile.text ++ (blanks ++ rest) ∧ tokens = tiles.map Tile.token ∧
        Tiled before tiles (blanks ++ rest) ∧ (∀ c ∈ blanks, isBlank c = true) ∧
        last = .after (before ++ (tiles.flatMap Tile.text ++ blanks)) := by
  induction h with
  | here =>
    rintro before rfl
    exact ⟨[], [], rfl, rfl, trivial, List.forall_mem_nil _, by simp⟩
  | @blank c _ _ _ _ _ blank _ ih =>
    rintro before rfl
    obtain ⟨tiles, blanks, rfl, rfl, tiled, isBlank, rfl⟩ := ih _ (Position.next_after before c)
    -- the blank belongs to the first tile, if there is one
    cases tiles with
    | nil =>
      exact ⟨[], c :: blanks, rfl, rfl, trivial, List.forall_mem_cons.2 ⟨blank, isBlank⟩, by simp⟩
    | cons tile tiles =>
      obtain ⟨here, later⟩ := tiled
      refine ⟨⟨c :: tile.blanks, tile.token⟩ :: tiles, blanks, rfl, rfl, ⟨here.cons blank, ?_⟩,
        isBlank, by simp [Tile.text, Tile.lexeme]⟩
      simpa [Tile.text, Tile.lexeme] using later
  | @lexeme t lexeme _ _ _ _ _ longest _ ih =>
    rintro before rfl
    have place := Position.advance_after before lexeme
    obtain ⟨tiles, blanks, rfl, rfl, tiled, isBlank, rfl⟩ := ih _ place
    have same : (String.ofList lexeme).toList = lexeme := String.toList_ofList
    refine ⟨⟨[], ⟨t, String.ofList lexeme, .after before, .after (before ++ lexeme)⟩⟩ :: tiles,
      blanks, ?_, ?_, ⟨Tile.fits_of_isLongest before longest, ?_⟩, isBlank, ?_⟩
    · simp [Tile.text, Tile.lexeme, same]
    · rw [place]; rfl
    · simpa [Tile.text, Tile.lexeme, same] using tiled
    · simp [Tile.text, Tile.lexeme, same]

/-- A run of blanks is a way. -/
theorem Scanned.blanks {blanks text rest : List Char} {before : List Char} {last : Position}
    {tokens : List Token} (isBlank : ∀ c ∈ blanks, isBlank c = true)
    (h : Scanned text (.after (before ++ blanks)) tokens rest last) :
    Scanned (blanks ++ text) (.after before) tokens rest last := by
  induction blanks generalizing before with
  | nil => rwa [List.append_nil] at h
  | cons c blanks ih =>
    obtain ⟨here, more⟩ := List.forall_mem_cons.1 isBlank
    refine .blank here ?_
    rw [Position.next_after]
    exact ih more (by simpa using h)

/-- **Tiles are a way over a text.** -/
theorem Tiled.scanned {before blanks rest : List Char} {tiles : List Tile}
    (h : Tiled before tiles (blanks ++ rest)) (isBlank : ∀ c ∈ blanks, isBlank c = true) :
    Scanned (tiles.flatMap Tile.text ++ (blanks ++ rest)) (.after before) (tiles.map Tile.token)
      rest (.after (before ++ (tiles.flatMap Tile.text ++ blanks))) := by
  induction tiles generalizing before with
  | nil =>
    have way : Scanned (blanks ++ rest) (.after before) [] rest (.after (before ++ blanks)) :=
      .blanks isBlank (.here rest _)
    exact way
  | cons tile tiles ih =>
    obtain ⟨fits, later⟩ := h
    have way := ih later
    have advance := Position.advance_after (before ++ tile.blanks) tile.lexeme
    have token : tile.token = ⟨tile.token.terminal, String.ofList tile.lexeme,
        .after (before ++ tile.blanks),
        (Position.after (before ++ tile.blanks)).advance tile.lexeme⟩ := by
      rw [advance, ← fits.first, ← fits.last, Tile.lexeme, String.ofList_toList]
    have step : Scanned (tile.lexeme ++ (tiles.flatMap Tile.text ++ (blanks ++ rest)))
        (.after (before ++ tile.blanks)) (tile.token :: tiles.map Tile.token) rest
        (.after (before ++ tile.text ++ (tiles.flatMap Tile.text ++ blanks))) := by
      rw [token]
      refine .lexeme fits.longest ?_
      rwa [advance, List.append_assoc]
    have whole := Scanned.blanks fits.isBlank step
    simpa [Tile.text] using whole

/-- **Scanning takes a text apart into tiles, and there is one way to do so.**  Scanning gives
their tokens, and it stops at the first character after them, if there is any: at the first place
where neither a blank nor a lexeme starts. -/
theorem scan_eq_iff (source : String) (tokens : List Token) (stop : Option (Char × Position)) :
    scan source = ⟨tokens, stop⟩ ↔ ∃ tiles blanks rest,
      Tiling source.toList tiles blanks rest ∧ tokens = tiles.map Tile.token ∧
        stop = rest.head?.map fun c => (c, .after (tiles.flatMap Tile.text ++ blanks)) := by
  constructor
  · intro eq
    obtain ⟨rest, last, scanned, stopped⟩ := scan_scanned source
    rw [eq] at scanned stopped
    obtain ⟨tiles, blanks, split, same, tiled, isBlank, rfl⟩ := scanned.exists_tiled [] rfl
    cases stop with
    | none =>
      obtain rfl : rest = [] := stopped
      have nothing : Unscannable [] := ⟨rfl, fun t lexeme starts h =>
        h.ne_nil (List.prefix_nil.1 starts)⟩
      exact ⟨tiles, blanks, [], ⟨split, tiled, isBlank, nothing⟩, same, rfl⟩
    | some stop =>
      obtain ⟨c, place⟩ := stop
      obtain ⟨rfl, head, unscannable⟩ := stopped
      exact ⟨tiles, blanks, rest, ⟨split, tiled, isBlank, unscannable⟩, same, by rw [head]; rfl⟩
  · rintro ⟨tiles, blanks, rest, ⟨split, tiled, isBlank, unscannable⟩, rfl, rfl⟩
    have way := tiled.scanned isBlank
    rw [← split] at way
    have stopped : Stopped rest (.after (tiles.flatMap Tile.text ++ blanks))
        (rest.head?.map fun c => (c, .after (tiles.flatMap Tile.text ++ blanks))) := by
      cases rest with
      | nil => rfl
      | cons c rest => exact ⟨rfl, rfl, unscannable⟩
    have scanned := scan_of_stopped way stopped
    rwa [String.ofList_toList] at scanned

/-- A word that starts like a keyword, an operator before a shorter one, and a point too many. -/
example : (scan "do1 //= 1.5.2").tokens.map (·.text) = ["do1", "//", "=", "1.5"] ∧
    (scan "do1 //= 1.5.2").stop = some ('.', ⟨1, 12⟩) := by
  decide +kernel

end SmallImp
