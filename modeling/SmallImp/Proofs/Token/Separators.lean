/-
# What a separator stands for

Each separator that is let through stands for a run of line ends and semicolons between two
other tokens (`Gap`), and it has the text and the block of the first of them that separates
(`exists_gap`).  The reason is what the state remembers of the tokens before it (`Remembers`):
the last token that is no line end or semicolon, the depth there, and the first token since
then that separates.
-/
import Mathlib
import SmallImp.Token.Separator

namespace SmallImp

/-- Line ends and semicolons. -/
def Token.IsBreak (token : Token) : Prop :=
  token.terminal = .newline ∨ token.terminal = .semicolon

namespace Separator

/-- The number of open parentheses after some tokens. -/
def parenDepth (tokens : List Token) : Nat :=
  tokens.foldl (fun depth token => depthAfter depth token.terminal) 0

/-- Whether a token is a separator at a depth: a line end in parentheses is layout. -/
def separates (depth : Nat) (token : Token) : Bool :=
  token.terminal == .semicolon || (token.terminal == .newline && depth == 0)

/-- A run of line ends and semicolons between two other tokens, with a separator among them. -/
structure Gap (tokens : List Token) where
  earlier : List Token
  last : Token
  run : List Token
  next : Token
  rest : List Token
  first : Token
  eq : tokens = earlier ++ last :: (run ++ next :: rest)
  last_isBreak : ¬ last.IsBreak
  run_isBreak : ∀ token ∈ run, token.IsBreak
  next_isBreak : ¬ next.IsBreak
  first_eq : run.find? (separates (parenDepth (earlier ++ [last]))) = some first

/-- A gap is still there when more tokens follow. -/
def Gap.append {tokens : List Token} (gap : Gap tokens) (more : List Token) :
    Gap (tokens ++ more) where
  earlier := gap.earlier
  last := gap.last
  run := gap.run
  next := gap.next
  rest := gap.rest ++ more
  first := gap.first
  eq := by simpa using congrArg (· ++ more) gap.eq
  last_isBreak := gap.last_isBreak
  run_isBreak := gap.run_isBreak
  next_isBreak := gap.next_isBreak
  first_eq := gap.first_eq

/-- What a state remembers of the tokens before it: those up to the last one that is no line
end or semicolon, and the first separator of the run since then, if it is no layout there. -/
structure Remembers (state : State) (tokens earlier run : List Token) : Prop where
  eq : tokens = earlier ++ run
  run_isBreak : ∀ token ∈ run, token.IsBreak
  last_isBreak : ∀ token ∈ earlier.getLast?, ¬ token.IsBreak
  depth : state.depth = parenDepth earlier
  previous : state.previous = earlier.getLast?.map (·.terminal)
  pending : state.pending =
    if isLeading state.previous then none else run.find? (separates state.depth)
  separated : separated tokens = separated earlier

theorem parenDepth_append_of_isBreak {earlier run : List Token}
    (breaks : ∀ token ∈ run, token.IsBreak) : parenDepth (earlier ++ run) = parenDepth earlier := by
  induction run generalizing earlier with
  | nil => rw [List.append_nil]
  | cons token run ih =>
    obtain ⟨here, more⟩ := List.forall_mem_cons.1 breaks
    have same : parenDepth (earlier ++ [token]) = parenDepth earlier := by
      rw [parenDepth, List.foldl_append]
      rcases here with h | h <;> simp [h, depthAfter, parenDepth]
    rw [List.append_cons, ih more, same]

theorem separated_append (tokens : List Token) (token : Token) :
    SmallImp.separated (tokens ++ [token]) =
      SmallImp.separated tokens ++ ((State.initial.run tokens).2.step token).1 := by
  simp [SmallImp.separated, State.run_append, State.run]

theorem run_append_singleton (tokens : List Token) (token : Token) :
    (State.initial.run (tokens ++ [token])).2 = ((State.initial.run tokens).2.step token).2 := by
  simp [State.run_append, State.run]

/-- A line end or semicolon lets nothing through and is remembered if it is the first. -/
theorem State.step_of_isBreak (state : State) {token : Token} (h : token.IsBreak) :
    state.step token = ([], ⟨state.depth, state.previous, state.pending.or
      (if isLeading state.previous then none else [token].find? (separates state.depth))⟩) := by
  have same : state.counts token = separates state.depth token := rfl
  rw [Token.IsBreak] at h
  rw [State.step, if_pos h, same]
  cases state with
  | mk depth previous pending =>
    cases pending <;> cases isLeading previous <;> cases h : separates depth token <;>
      simp [h]

/-- Any other token lets the separator held back through, unless it absorbs it, and itself. -/
theorem State.step_of_not_isBreak (state : State) {token : Token} (h : ¬ token.IsBreak) :
    state.step token =
      (state.release token, ⟨depthAfter state.depth token.terminal, some token.terminal, none⟩) :=
  if_neg h

/-- What is remembered after one more token. -/
theorem Remembers.step {tokens earlier run : List Token}
    (h : Remembers (State.initial.run tokens).2 tokens earlier run) (token : Token) :
    ∃ earlier run, Remembers (State.initial.run (tokens ++ [token])).2 (tokens ++ [token])
      earlier run := by
  by_cases breaks : token.IsBreak
  · have step := (State.initial.run tokens).2.step_of_isBreak breaks
    refine ⟨earlier, run ++ [token], ?_⟩
    rw [run_append_singleton, step]
    exact {
      eq := by rw [h.eq, List.append_assoc]
      run_isBreak := by
        intro other mem
        rcases List.mem_append.1 mem with mem | mem
        · exact h.run_isBreak other mem
        · rw [List.mem_singleton.1 mem]
          exact breaks
      last_isBreak := h.last_isBreak
      depth := h.depth
      previous := h.previous
      pending := by
        simp only [h.pending]
        rw [List.find?_append]
        split <;> rfl
      separated := by rw [separated_append, step, List.append_nil, h.separated] }
  · have step := (State.initial.run tokens).2.step_of_not_isBreak breaks
    refine ⟨tokens ++ [token], [], ?_⟩
    rw [run_append_singleton, step]
    exact {
      eq := (List.append_nil _).symm
      run_isBreak := List.forall_mem_nil _
      last_isBreak := by
        intro other mem
        rw [List.getLast?_concat] at mem
        cases mem
        exact breaks
      depth := by
        rw [h.depth, ← parenDepth_append_of_isBreak h.run_isBreak, ← h.eq]
        simp [parenDepth]
      previous := by rw [List.getLast?_concat]; rfl
      pending := by split <;> rfl
      separated := rfl }

/-- Something is remembered of every list of tokens. -/
theorem exists_remembers (tokens : List Token) :
    ∃ earlier run, Remembers (State.initial.run tokens).2 tokens earlier run := by
  induction tokens using List.reverseRecOn with
  | nil =>
    have last : ∀ token ∈ ([] : List Token).getLast?, ¬ token.IsBreak :=
      fun _ mem => absurd mem (Option.not_mem_none _)
    exact ⟨[], [], ⟨rfl, List.forall_mem_nil _, last, rfl, rfl, rfl, rfl⟩⟩
  | append_singleton tokens token ih =>
    obtain ⟨earlier, run, remembers⟩ := ih
    exact remembers.step token

/-- What the last token lets through of a separator held back. -/
theorem exists_gap_of_release {tokens before after : List Token} {token separator : Token}
    (breaks : ¬ token.IsBreak) (proper : token.terminal ≠ .separator)
    (isSeparator : separator.terminal = .separator)
    (release : (State.initial.run tokens).2.release token = before ++ separator :: after) :
    before = [] ∧ ∃ gap : Gap (tokens ++ [token]),
      separator = { gap.first with terminal := .separator } ∧
        SmallImp.separated (gap.earlier ++ [gap.last]) = SmallImp.separated tokens := by
  obtain ⟨earlier, run, h⟩ := exists_remembers tokens
  have alone {before after : List Token} (eq : [token] = before ++ separator :: after) : False := by
    have mem : separator ∈ [token] := by simp [eq]
    rw [List.mem_singleton.1 mem] at isSeparator
    exact proper isSeparator
  unfold State.release at release
  split at release
  case h_2 => exact (alone release).elim
  case h_1 held pending =>
    split at release
    case isTrue => exact (alone release).elim
    case isFalse =>
      cases before with
      | cons first before => exact (alone (List.cons.inj release).2).elim
      | nil =>
        obtain ⟨rfl, -⟩ := List.cons.inj release
        rw [h.pending] at pending
        split at pending
        case isTrue => cases pending
        case isFalse follows =>
          -- what is held back follows a token, for it leads no text
          obtain ⟨last, got⟩ : ∃ last, earlier.getLast? = some last := by
            cases got : earlier.getLast? with
            | none =>
              rw [h.previous, got] at follows
              exact absurd rfl follows
            | some last => exact ⟨last, rfl⟩
          obtain ⟨earlier, rfl⟩ := List.getLast?_eq_some_iff.1 got
          exact ⟨rfl, {
            earlier := earlier
            last := last
            run := run
            next := token
            rest := []
            first := held
            eq := by rw [h.eq]; simp
            last_isBreak := h.last_isBreak last got
            run_isBreak := h.run_isBreak
            next_isBreak := breaks
            first_eq := h.depth ▸ pending }, rfl, h.separated.symm⟩

/-- **A separator stands for a gap.**  It has the text and the block of the first separator of
the gap, and the tokens let through before it are those before the gap. -/
theorem exists_gap {tokens before after : List Token} {separator : Token}
    (proper : ∀ token ∈ tokens, token.terminal ≠ .separator)
    (isSeparator : separator.terminal = .separator)
    (eq : SmallImp.separated tokens = before ++ separator :: after) :
    ∃ gap : Gap tokens, separator = { gap.first with terminal := .separator } ∧
      SmallImp.separated (gap.earlier ++ [gap.last]) = before := by
  induction tokens using List.reverseRecOn generalizing after with
  | nil => cases List.append_eq_nil_iff.1 eq.symm |>.2
  | append_singleton tokens token ih =>
    have proper' : ∀ other ∈ tokens, other.terminal ≠ .separator :=
      fun other mem => proper other (List.mem_append_left _ mem)
    rw [separated_append] at eq
    have last {more : List Token} (sum : SmallImp.separated tokens ++ more = before)
        (now : ((State.initial.run tokens).2.step token).1 = more ++ separator :: after) :
        ∃ gap : Gap (tokens ++ [token]), separator = { gap.first with terminal := .separator } ∧
          SmallImp.separated (gap.earlier ++ [gap.last]) = before := by
      by_cases breaks : token.IsBreak
      · rw [State.step_of_isBreak _ breaks] at now
        cases List.append_eq_nil_iff.1 now.symm |>.2
      · rw [State.step_of_not_isBreak _ breaks] at now
        obtain ⟨rfl, gap, same, separated⟩ :=
          exists_gap_of_release breaks (proper token (by simp)) isSeparator now
        exact ⟨gap, same, by rw [separated, ← sum, List.append_nil]⟩
    -- the separator is let through by the last token, or was before
    rcases List.append_eq_append_iff.1 eq with ⟨more, sum, now⟩ | ⟨more, earlier, now⟩
    · exact last sum.symm now
    · cases more with
      | nil =>
        have sum : SmallImp.separated tokens ++ [] = before := by
          rw [earlier, List.append_nil, List.append_nil]
        exact last sum now.symm
      | cons first more =>
        obtain ⟨rfl, -⟩ := List.cons.inj now
        obtain ⟨gap, same, separated⟩ := ih proper' earlier
        exact ⟨gap.append [token], same, separated⟩

/-- A token let through that is no separator is one of those read. -/
theorem mem_of_mem_separated {tokens : List Token} {token : Token}
    (mem : token ∈ SmallImp.separated tokens) (proper : token.terminal ≠ .separator) :
    token ∈ tokens := by
  induction tokens using List.reverseRecOn with
  | nil => exact mem
  | append_singleton tokens last ih =>
    rw [separated_append, List.mem_append] at mem
    rcases mem with mem | mem
    · exact List.mem_append_left _ (ih mem)
    · by_cases breaks : last.IsBreak
      · rw [State.step_of_isBreak _ breaks] at mem
        cases mem
      · rw [State.step_of_not_isBreak _ breaks, State.release] at mem
        have : token = last := by
          split at mem
          · split at mem
            · exact List.mem_singleton.1 mem
            · rcases List.mem_cons.1 mem with rfl | mem
              · exact absurd rfl proper
              · exact List.mem_singleton.1 mem
          · exact List.mem_singleton.1 mem
        simp [this]

end Separator
end SmallImp
