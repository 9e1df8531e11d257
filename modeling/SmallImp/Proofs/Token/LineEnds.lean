/-
# Either kind of line end

A line feed with a carriage return before it is a line end as a line feed alone is.  Over a text
whose line feeds get carriage returns (`withReturns`) the scanner goes the same way: each line feed
is a lexeme of its own, each other lexeme ends before the next line feed, and layout comes at its
place in both texts (`Scanned.returns`).  It comes to the same places, since only a line feed
starts a line.

So the tokens are the same but for the texts of line ends (`Token.trimmed`), the scanner stops at
the same character (`Stopped.returns`), and the same separators are let through with the same
blocks (`trimmed_separated`).
-/
import SmallImp.Proofs.Token.Separators
import SmallImp.Proofs.Token.Ways

namespace SmallImp

open Scan Terminal

/-! ## Texts -/

/-- A text with a carriage return before each line feed. -/
def withReturns : List Char → List Char
  | [] => []
  | c :: rest => if c = '\n' then '\r' :: '\n' :: withReturns rest else c :: withReturns rest

theorem withReturns_cons {c : Char} (other : c ≠ '\n') (rest : List Char) :
    withReturns (c :: rest) = c :: withReturns rest := if_neg other

theorem withReturns_append (first second : List Char) :
    withReturns (first ++ second) = withReturns first ++ withReturns second := by
  induction first with
  | nil => rfl
  | cons c first ih =>
    rw [List.cons_append, withReturns, withReturns, ih]
    split <;> rfl

/-- Up to the next line feed a text stays as it is. -/
theorem withReturns_eq_self {text : List Char} (none : '\n' ∉ text) : withReturns text = text := by
  induction text with
  | nil => rfl
  | cons c text ih =>
    rw [List.mem_cons, not_or] at none
    rw [withReturns_cons (Ne.symm none.1), ih none.2]

/-- A text up to its first line feed, and on from there: layout comes at one place in it and in the
text with carriage returns. -/
theorem exists_withReturns (text : List Char) :
    ∃ used rest, '\n' ∉ used ∧ text = used ++ rest ∧
      withReturns text = used ++ withReturns rest ∧ LayoutAhead rest ∧
      LayoutAhead (withReturns rest) := by
  induction text with
  | nil =>
    have ahead : LayoutAhead [] := fun _ mem => absurd mem (Option.not_mem_none _)
    exact ⟨[], [], List.not_mem_nil, rfl, rfl, ahead, ahead⟩
  | cons c text ih =>
    by_cases lineFeed : c = '\n'
    · subst lineFeed
      have ahead : LayoutAhead ('\n' :: text) := by rintro _ ⟨⟩; decide
      have ahead' : LayoutAhead (withReturns ('\n' :: text)) := by rintro _ ⟨⟩; decide
      exact ⟨[], _, List.not_mem_nil, rfl, rfl, ahead, ahead'⟩
    · obtain ⟨used, rest, none, rfl, returns, ahead, ahead'⟩ := ih
      refine ⟨c :: used, rest, ?_, rfl, ?_, ahead, ahead'⟩
      · rw [List.mem_cons, not_or]
        exact ⟨Ne.symm lineFeed, none⟩
      · rw [List.cons_append, withReturns_cons lineFeed, returns]

/-! ## Scanning -/

/-- A token without its text if it is a line end or a separator. -/
def Token.trimmed (token : Token) : Token :=
  if token.terminal = .newline ∨ token.terminal = .separator then { token with text := "" }
  else token

@[simp]
theorem Token.terminal_trimmed (token : Token) : token.trimmed.terminal = token.terminal := by
  unfold trimmed
  split <;> rfl

@[simp]
theorem Token.block_trimmed (token : Token) : token.trimmed.block = token.block := by
  unfold trimmed
  split <;> rfl

theorem Token.trimmed_eq_self {token : Token} (lineEnd : token.terminal ≠ .newline)
    (separator : token.terminal ≠ .separator) : token.trimmed = token :=
  if_neg (not_or.2 ⟨lineEnd, separator⟩)

/-- A line feed is a lexeme of its own, where there are no carriage returns. -/
theorem Terminal.IsLongest.lineFeed {t : Terminal} {lexeme text : List Char}
    (longest : t.IsLongest lexeme (lexeme ++ text)) (plain : '\r' ∉ lexeme)
    (mem : '\n' ∈ lexeme) : t = .newline ∧ lexeme = ['\n'] := by
  obtain ⟨before, after, rfl⟩ := List.append_of_mem mem
  have lineFeed : '\n' ∈ layout := by decide
  obtain rfl : before = [] := by
    rcases longest.isLexeme.before_layout lineFeed with none | return_
    · exact none
    · rw [return_] at plain
      exact absurd (by simp) plain
  have alone := isLongest_break (by decide : (['\n'], Terminal.newline) ∈ breaks) (after ++ text)
  exact longest.unique alone

/-- A lexeme without a line feed stays the longest one. -/
theorem Terminal.IsLongest.returns {t : Terminal} {lexeme text : List Char}
    (longest : t.IsLongest lexeme (lexeme ++ text)) :
    t.IsLongest lexeme (lexeme ++ withReturns text) := by
  obtain ⟨used, rest, -, rfl, returns, -, ahead⟩ := exists_withReturns text
  rw [returns]
  exact longest.replace ahead

/-- **The way over a text with carriage returns** comes to the same places, by the same tokens but
for the texts of line ends. -/
theorem Scanned.returns {text rest : List Char} {place last : Position} {tokens : List Token}
    (h : Scanned text place tokens rest last) (plain : '\r' ∉ text) :
    ∃ tokens', Scanned (withReturns text) place tokens' (withReturns rest) last ∧
      tokens'.map Token.trimmed = tokens.map Token.trimmed := by
  induction h with
  | here text place => exact ⟨[], .here _ place, rfl⟩
  | @blank c text _ _ _ _ blank _ ih =>
    rw [List.mem_cons, not_or] at plain
    obtain ⟨tokens', way, same⟩ := ih plain.2
    have other : c ≠ '\n' := by
      rintro rfl
      cases blank
    rw [withReturns_cons other]
    exact ⟨tokens', .blank blank way, same⟩
  | @lexeme t lexeme text place tokens rest last longest _ ih =>
    rw [List.mem_append, not_or] at plain
    obtain ⟨tokens', way, same⟩ := ih plain.2
    rw [withReturns_append]
    by_cases lineFeed : '\n' ∈ lexeme
    · obtain ⟨rfl, rfl⟩ := longest.lineFeed plain.1 lineFeed
      -- past the carriage return and the line feed the place is the same
      have step := Scanned.lexeme (isLongest_break (by decide : (['\r', '\n'], newline) ∈ breaks)
        (withReturns text)) way
      refine ⟨_, step, ?_⟩
      rw [List.map_cons, List.map_cons, same]
      rfl
    · rw [withReturns_eq_self lineFeed]
      exact ⟨_, .lexeme longest.returns way, by rw [List.map_cons, List.map_cons, same]⟩

/-- Neither a blank nor a lexeme starts a text with carriage returns where none did before. -/
theorem Unscannable.returns {c : Char} {rest : List Char} (h : Unscannable (c :: rest))
    (plain : c ≠ '\r') : c ≠ '\n' ∧ Unscannable (c :: withReturns rest) := by
  obtain ⟨noBlank, noLexeme⟩ := h
  have other : c ≠ '\n' := by
    rintro rfl
    have alone := isLongest_break (by decide : (['\n'], newline) ∈ breaks) rest
    exact noLexeme _ _ alone.starts alone.isLexeme
  refine ⟨other, noBlank, fun t lexeme starts isLexeme => ?_⟩
  obtain ⟨used, rest, -, rfl, returns, -, ahead⟩ := exists_withReturns rest
  rw [returns, ← List.cons_append] at starts
  obtain ⟨after, eq⟩ := starts
  rcases List.append_eq_append_iff.1 eq with ⟨more, eq, -⟩ | ⟨more, eq, eq'⟩
  · refine noLexeme t lexeme ⟨more ++ rest, ?_⟩ isLexeme
    rw [← List.append_assoc, ← eq, List.cons_append]
  · cases more with
    | nil =>
      rw [List.append_nil] at eq
      exact noLexeme t lexeme (eq ▸ List.prefix_append (c :: used) rest) isLexeme
    | cons d more =>
      -- the lexeme would have layout inside
      rw [eq'] at ahead
      rw [eq] at isLexeme
      rcases isLexeme.before_layout (ahead d rfl) with none | return_
      · cases none
      · exact plain (List.cons.inj return_).1

/-- **Scanning stops at the same character**, if it stops before the end of the text. -/
theorem Stopped.returns {rest : List Char} {last : Position} {stop : Option (Char × Position)}
    (h : Stopped rest last stop) (plain : '\r' ∉ rest) :
    Stopped (withReturns rest) last stop := by
  cases stop with
  | none =>
    obtain rfl : rest = [] := h
    rfl
  | some stop =>
    obtain ⟨c, place⟩ := stop
    obtain ⟨rfl, head, unscannable⟩ := h
    obtain ⟨rest, rfl⟩ := List.head?_eq_some_iff.1 head
    rw [List.mem_cons, not_or] at plain
    obtain ⟨other, unscannable⟩ := unscannable.returns (Ne.symm plain.1)
    rw [withReturns_cons other]
    exact ⟨rfl, rfl, unscannable⟩

/-- **A text with carriage returns is scanned to the same tokens**, but for the texts of line ends,
and up to the same character. -/
theorem scan_withReturns {source : String} (plain : '\r' ∉ source.toList) :
    (scan (String.ofList (withReturns source.toList))).tokens.map Token.trimmed =
        (scan source).tokens.map Token.trimmed ∧
      (scan (String.ofList (withReturns source.toList))).stop = (scan source).stop := by
  obtain ⟨rest, last, way, stopped⟩ := scan_scanned source
  obtain ⟨tokens, way', same⟩ := way.returns plain
  obtain ⟨used, split, -⟩ := way.replace
  have plain' : '\r' ∉ rest := fun mem => plain (split ▸ List.mem_append_right used mem)
  rw [scan_of_stopped way' (stopped.returns plain')]
  exact ⟨same, rfl⟩

/-! ## Separators -/

namespace Separator

/-- A state that holds back a line end without its text. -/
def State.trimmed (state : State) : State :=
  { state with pending := state.pending.map Token.trimmed }

/-- A separator has no text when it is trimmed. -/
theorem trimmed_separator (text : String) (block : Block) :
    (⟨.separator, text, block⟩ : Token).trimmed = ⟨.separator, "", block⟩ := rfl

/-- One token more or less trimmed: what is let through, and the state after it. -/
theorem State.step_trimmed (state : State) (token : Token) :
    (state.trimmed.step token.trimmed).1.map Token.trimmed =
        (state.step token).1.map Token.trimmed ∧
      (state.trimmed.step token.trimmed).2 = (state.step token).2.trimmed := by
  by_cases breaks : token.IsBreak
  · have breaks' : token.trimmed.IsBreak := by rwa [Token.IsBreak, Token.terminal_trimmed]
    have counts : separates state.depth token.trimmed = separates state.depth token := by
      rw [separates, separates, Token.terminal_trimmed]
    rw [state.step_of_isBreak breaks, state.trimmed.step_of_isBreak breaks']
    refine ⟨rfl, ?_⟩
    simp only [State.trimmed, List.find?_cons, counts, Option.map_or]
    cases isLeading state.previous <;> cases separates state.depth token <;> rfl
  · have breaks' : ¬ token.trimmed.IsBreak := by rwa [Token.IsBreak, Token.terminal_trimmed]
    have twice : token.trimmed.trimmed = token.trimmed := by
      unfold Token.trimmed
      split <;> simp [*]
    rw [state.step_of_not_isBreak breaks, state.trimmed.step_of_not_isBreak breaks']
    refine ⟨?_, by simp [State.trimmed]⟩
    simp only [State.release, State.trimmed, Token.terminal_trimmed]
    cases state.pending with
    | none => simp [twice]
    | some held => cases isAbsorbing token.terminal <;> simp [twice, trimmed_separator]

theorem State.run_trimmed (state : State) (tokens : List Token) :
    (state.trimmed.run (tokens.map Token.trimmed)).1.map Token.trimmed =
      (state.run tokens).1.map Token.trimmed := by
  induction tokens generalizing state with
  | nil => rfl
  | cons token tokens ih =>
    obtain ⟨now, next⟩ := state.step_trimmed token
    simp only [List.map_cons, State.run, List.map_append, now, next, ih]

theorem State.not_isBreak_of_mem_step (state : State) {token read : Token}
    (mem : token ∈ (state.step read).1) : ¬ token.IsBreak := by
  by_cases breaks : read.IsBreak
  · rw [state.step_of_isBreak breaks] at mem
    cases mem
  · rw [state.step_of_not_isBreak breaks, State.release] at mem
    split at mem
    · split at mem
      · exact List.mem_singleton.1 mem ▸ breaks
      · rcases List.mem_cons.1 mem with rfl | mem
        · simp [Token.IsBreak]
        · exact List.mem_singleton.1 mem ▸ breaks
    · exact List.mem_singleton.1 mem ▸ breaks

/-- No line end and no semicolon is let through. -/
theorem State.not_isBreak_of_mem_run (state : State) {tokens : List Token} {token : Token}
    (mem : token ∈ (state.run tokens).1) : ¬ token.IsBreak := by
  induction tokens generalizing state with
  | nil => cases mem
  | cons first tokens ih =>
    rw [State.run] at mem
    rcases List.mem_append.1 mem with now | later
    · exact state.not_isBreak_of_mem_step now
    · exact ih _ later

end Separator

/-- **The texts of line ends are of no matter to separators.** -/
theorem trimmed_separated {tokens tokens' : List Token}
    (same : tokens.map Token.trimmed = tokens'.map Token.trimmed) :
    (separated tokens).map Token.trimmed = (separated tokens').map Token.trimmed := by
  have run (tokens : List Token) := Separator.State.initial.run_trimmed tokens
  have initial : Separator.State.initial.trimmed = .initial := rfl
  rw [separated, separated, ← run tokens, ← run tokens', same]

end SmallImp
