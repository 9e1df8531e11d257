/-
# What stands between two tokens

What a list of tokens comes to, said of the list itself (`Spaced`): the tokens that are no line
ends or semicolons, in order, and between two of them a separator or nothing.  Which of the two
is told by the two tokens, the run between them and the number of parentheses open there
(`between`).  Nothing is said of states: the state after a token and a run is what `between`
looks at (`stateAfter_run`), and a state left by an earlier list counts for nothing
(`process_spaced`).
-/
import SmallImp.Proofs.Token.Blocks
import SmallImp.Proofs.Token.Spare

namespace SmallImp

instance : DecidablePred Token.IsBreak := fun token =>
  inferInstanceAs (Decidable (token.terminal = .newline ∨ token.terminal = .semicolon))

namespace Separator

/-- What stands between two tokens for the run of line ends and semicolons between them, at a
depth: a separator with the text and the block of the first of them that separates, but nothing
after `{` and nothing before `{`, `}`, `else`, `then` and `do`. -/
def between (depth : Nat) (last : Token) (run : List Token) (next : Token) : List Token :=
  if last.terminal = .leftBrace ∨ isAbsorbing next.terminal = true then []
  else match run.find? (separates depth) with
    | some first => [{ first with terminal := .separator }]
    | none => []

/-- Whether each separator stands between two other tokens, not after `{` and not before a token
that absorbs it. -/
def Flanked (tokens : List Token) : Prop :=
  ∀ before separator after, tokens = before ++ separator :: after →
    separator.terminal = .separator →
    ∃ done last next more, before = done ++ [last] ∧ after = next :: more ∧
      last.terminal ≠ .separator ∧ last.terminal ≠ .leftBrace ∧
      next.terminal ≠ .separator ∧ isAbsorbing next.terminal = false

/-- What a list of tokens is to come to. -/
structure Spaced (tokens output : List Token) : Prop where
  /-- But for separators, these are the tokens that are no line ends or semicolons. -/
  kept : output.filter (fun token => token.terminal ≠ .separator) =
    (tokens.filter fun token => ¬ token.IsBreak).filter fun token => token.terminal ≠ .separator
  /-- Nothing stands before the first token. -/
  first : ∀ run next rest, tokens = run ++ next :: rest → (∀ token ∈ run, token.IsBreak) →
    ¬ next.IsBreak → ∃ more, output = next :: more
  /-- Between a token and the next one stands what `between` says. -/
  next : ∀ before last run next rest, tokens = before ++ last :: (run ++ next :: rest) →
    ¬ last.IsBreak → (∀ token ∈ run, token.IsBreak) → ¬ next.IsBreak →
    ∃ done more, output = done ++ last ::
        (between (parenDepth (before ++ [last])) last run next ++ next :: more) ∧
      done.filter (fun token => token.terminal ≠ .separator) =
        (before.filter fun token => ¬ token.IsBreak).filter fun token =>
          token.terminal ≠ .separator
  /-- Nothing stands after the last token. -/
  last : ∀ before last run, tokens = before ++ last :: run → ¬ last.IsBreak →
    (∀ token ∈ run, token.IsBreak) → ∃ done, output = done ++ [last]
  /-- Line ends and semicolons alone come to nothing. -/
  nothing : (∀ token ∈ tokens, token.IsBreak) → output = []
  /-- Where no token is a separator itself, those that are made are flanked. -/
  flanked : (∀ token ∈ tokens, token.terminal ≠ .separator) → Flanked output

/-! ## Runs of line ends and semicolons -/

section Runs
variable {run : List Token}

/-- A run lets nothing through. -/
theorem State.run_of_breaks (state : State) (breaks : ∀ token ∈ run, token.IsBreak) :
    (state.run run).1 = [] := by
  induction run generalizing state with
  | nil => rfl
  | cons token run ih =>
    obtain ⟨here, more⟩ := List.forall_mem_cons.1 breaks
    rw [state.run_of_isBreak here, ih _ more]

theorem separated_append_of_breaks (tokens : List Token) (breaks : ∀ token ∈ run, token.IsBreak) :
    separated (tokens ++ run) = separated tokens := by
  rw [separated_append_list, State.run_of_breaks _ breaks, List.append_nil]

/-- A run at the start of a text is forgotten. -/
theorem stateAfter_of_breaks (breaks : ∀ token ∈ run, token.IsBreak) :
    stateAfter run = .initial := by
  induction run using List.reverseRecOn with
  | nil => rfl
  | append_singleton run token ih =>
    obtain ⟨more, here⟩ := List.forall_mem_append.1 breaks
    rw [stateAfter_append, ih more, State.step_of_isBreak _ (here token (by simp))]
    rfl

/-- **What is remembered of a token and a run after it**: the depth after the token, the token,
and the first of the run that separates there, unless the token is `{`. -/
theorem stateAfter_run (before : List Token) {last : Token} (proper : ¬ last.IsBreak)
    (breaks : ∀ token ∈ run, token.IsBreak) :
    stateAfter (before ++ last :: run) =
      ⟨parenDepth (before ++ [last]), some last.terminal,
        if isLeading (some last.terminal) then none
        else run.find? (separates (parenDepth (before ++ [last])))⟩ := by
  induction run using List.reverseRecOn with
  | nil =>
    have depth := depth_stateAfter (before ++ [last])
    rw [stateAfter_append, State.step_of_not_isBreak _ proper] at depth ⊢
    rw [← depth]
    split <;> rfl
  | append_singleton run token ih =>
    obtain ⟨more, here⟩ := List.forall_mem_append.1 breaks
    have snoc : before ++ last :: (run ++ [token]) = (before ++ last :: run) ++ [token] := by simp
    rw [snoc, stateAfter_append, ih more, State.step_of_isBreak _ (here token (by simp)),
      List.find?_append]
    dsimp only
    split <;> rfl

/-- What the next token lets through is what is to stand before it, and the token. -/
theorem release_stateAfter (before : List Token) {last : Token} (next : Token)
    (proper : ¬ last.IsBreak) (breaks : ∀ token ∈ run, token.IsBreak) :
    (stateAfter (before ++ last :: run)).release next =
      between (parenDepth (before ++ [last])) last run next ++ [next] := by
  have leading : isLeading (some last.terminal) = true ↔ last.terminal = .leftBrace := by
    cases last.terminal <;> simp [isLeading]
  rw [stateAfter_run before proper breaks, State.release, between]
  dsimp only
  by_cases brace : last.terminal = .leftBrace
  · rw [if_pos (leading.2 brace), if_pos (.inl brace), List.nil_append]
  · rw [if_neg (mt leading.1 brace)]
    by_cases absorbing : isAbsorbing next.terminal = true
    · rw [if_pos (.inr absorbing)]
      split
      · rw [if_pos absorbing, List.nil_append]
      · rfl
    · rw [if_neg (not_or.2 ⟨brace, absorbing⟩)]
      cases run.find? (separates (parenDepth (before ++ [last]))) with
      | none => rfl
      | some first => exact if_neg absorbing

end Runs

/-! ## Lists of tokens -/

/-- What is let through ends with the last token that is no line end or semicolon. -/
theorem exists_separated_concat (before : List Token) {last : Token} (proper : ¬ last.IsBreak) :
    ∃ done, separated (before ++ [last]) = done ++ [last] :=
  List.getLast?_eq_some_iff.1 (getLast?_separated before proper)

/-- But for separators, what is let through are the tokens that are no line ends or semicolons. -/
theorem filter_separated (tokens : List Token) :
    (separated tokens).filter (fun token => token.terminal ≠ .separator) =
      (tokens.filter fun token => ¬ token.IsBreak).filter fun token =>
        token.terminal ≠ .separator := by
  induction tokens using List.reverseRecOn with
  | nil => rfl
  | append_singleton tokens token ih =>
    rw [separated_append, List.filter_append, List.filter_append, List.filter_append, ih]
    congr 1
    by_cases breaks : token.IsBreak
    · rw [State.step_of_isBreak _ breaks, List.filter_singleton]
      simp [breaks]
    · rw [State.step_of_not_isBreak _ breaks, State.release, List.filter_singleton]
      simp only [breaks, not_false_eq_true, decide_true, Bool.cond_true]
      -- of what was held back there is only a separator
      split
      · split <;> simp
      · rfl

/-- **What stands between a token and the next one.** -/
theorem separated_next (before rest : List Token) {last next : Token} {run : List Token}
    (proper : ¬ last.IsBreak) (breaks : ∀ token ∈ run, token.IsBreak) (proper' : ¬ next.IsBreak) :
    ∃ more, separated (before ++ last :: (run ++ next :: rest)) =
      separated (before ++ [last]) ++
        (between (parenDepth (before ++ [last])) last run next ++ next :: more) := by
  have split : before ++ last :: (run ++ next :: rest) =
      (before ++ last :: run) ++ next :: rest := by simp
  have same : separated (before ++ last :: run) = separated (before ++ [last]) := by
    rw [List.append_cons, separated_append_of_breaks _ breaks]
  rw [split, separated_append_list, same, State.run, State.step_of_not_isBreak _ proper',
    release_stateAfter before next proper breaks]
  exact ⟨_, congrArg _ (List.append_assoc ..)⟩

/-- **Separators are flanked** where no token is one itself. -/
theorem flanked_separated {tokens : List Token}
    (proper : ∀ token ∈ tokens, token.terminal ≠ .separator) : Flanked (separated tokens) := by
  intro before separator after eq isSeparator
  obtain ⟨⟨earlier, last, run, next, rest, first, rfl, proper', breaks, proper'', _⟩, -, done⟩ :=
    exists_gap proper isSeparator eq
  obtain ⟨more, stands⟩ := separated_next earlier rest proper' breaks proper''
  obtain ⟨start, ends⟩ := exists_separated_concat earlier proper'
  have last_proper := proper last (by simp)
  have next_proper := proper next (by simp)
  rw [eq, done] at stands
  have stands := List.append_cancel_left stands
  rw [between] at stands
  -- the separator is not the next token, so it is what stands before that one
  have other : separator ≠ next := by
    rintro rfl
    exact next_proper isSeparator
  split at stands
  case isTrue => exact absurd (List.cons.inj stands).1 other
  case isFalse free =>
    obtain ⟨brace, absorbing⟩ := not_or.1 free
    split at stands
    · obtain ⟨-, rest⟩ := List.cons.inj stands
      exact ⟨start, last, next, more, by rw [← done, ends], rest, last_proper, brace, next_proper,
        Bool.eq_false_iff.2 absorbing⟩
    · exact absurd (List.cons.inj stands).1 other

/-- **What a list of tokens comes to, whatever state an earlier list has left**: the tokens that
are no line ends or semicolons, with a separator between two of them just where the run between
them has a line end or semicolon that separates there and neither of the two absorbs it. -/
theorem process_spaced (earlier : State) (tokens : List Token) :
    Spaced tokens (earlier.process tokens).1 := by
  have fresh : (earlier.process tokens).1 = separated tokens := rfl
  rw [fresh]
  refine ⟨filter_separated tokens, ?_, ?_, ?_, ?_, flanked_separated⟩
  · rintro run next rest rfl breaks proper
    have none : separated run = [] := State.run_of_breaks _ breaks
    rw [separated_append_list, none, stateAfter_of_breaks breaks, State.run,
      State.step_of_not_isBreak _ proper]
    exact ⟨_, rfl⟩
  · rintro before last run next rest rfl proper breaks proper'
    obtain ⟨done, ends⟩ := exists_separated_concat before proper
    obtain ⟨more, eq⟩ := separated_next before rest proper breaks proper'
    refine ⟨done, more, by rw [eq, ends, List.append_assoc]; rfl, ?_⟩
    have kept := filter_separated (before ++ [last])
    rw [ends, List.filter_append, List.filter_append, List.filter_append] at kept
    have same : [last].filter (fun token => ¬ token.IsBreak) = [last] := by simp [proper]
    rw [same] at kept
    exact List.append_cancel_right kept
  · rintro before last run rfl proper breaks
    rw [List.append_cons, separated_append_of_breaks _ breaks]
    exact exists_separated_concat before proper
  · exact State.run_of_breaks _

/-- A list of tokens after one left inside parentheses and with a semicolon held back. -/
example :
    let place (column : Int) : Block := ⟨⟨1, column⟩, ⟨1, column + 1⟩⟩
    (State.process ⟨2, some .plus, some ⟨.semicolon, ";", .origin⟩⟩
      [⟨.newline, "\n", place 1⟩, ⟨.leftParen, "(", place 2⟩, ⟨.newline, "\n", place 3⟩,
        ⟨.semicolon, ";", place 4⟩, ⟨.rightParen, ")", place 5⟩, ⟨.semicolon, ";", place 6⟩,
        ⟨.elseWord, "else", place 7⟩, ⟨.newline, "\n", place 8⟩]).1 =
      [⟨.leftParen, "(", place 2⟩, ⟨.separator, ";", place 4⟩, ⟨.rightParen, ")", place 5⟩,
        ⟨.elseWord, "else", place 7⟩] := by
  decide

end Separator
end SmallImp
