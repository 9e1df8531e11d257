/-
# Line ends and semicolons that count for nothing

At a spare place one more line end or semicolon changes none of the tokens that reach the
grammar, but for blocks (`separated_insert`), and in place of one outside parentheses another
may stand (`separated_replace`).

The reason is in the state of the separators.  States are alike if they agree but for which line
end or semicolon is held back.  Alike states let through the same of the same tokens
(`State.Alike.run`), and a spare token leads to a state that is alike, or that comes to be so
before anything is let through.
-/
import SmallImp.Proofs.Token.Separators
import SmallImp.Proofs.Tree.Erasure

namespace SmallImp
namespace Separator

/-! ## Alike states -/

/-- States that agree but for which line end or semicolon they hold back. -/
structure State.Alike (a b : State) : Prop where
  depth : a.depth = b.depth
  previous : a.previous = b.previous
  pending : a.pending.isSome = b.pending.isSome

section Alike

variable {a b : State} {token token' : Token}

theorem terminal_eq_of_erased (same : token.erased = token'.erased) :
    token.terminal = token'.terminal := by
  rw [← Token.terminal_erased, same, Token.terminal_erased]

/-- What is held back is erased to one separator. -/
theorem erased_held (held : Token) :
    ({ held with terminal := .separator } : Token).erased = ⟨.separator, "", .origin⟩ := rfl

/-- What alike states let through of a token, and the states after it. -/
theorem State.Alike.step (h : a.Alike b) (same : token.erased = token'.erased) :
    (a.step token).1.map Token.erased = (b.step token').1.map Token.erased ∧
      (a.step token).2.Alike (b.step token').2 := by
  have terminal := terminal_eq_of_erased same
  by_cases breaks : token.IsBreak
  · have breaks' : token'.IsBreak := by
      rw [Token.IsBreak, ← terminal]
      exact breaks
    have counts : separates a.depth token = separates b.depth token' := by
      rw [separates, separates, terminal, h.depth]
    rw [a.step_of_isBreak breaks, b.step_of_isBreak breaks']
    refine ⟨rfl, h.depth, h.previous, ?_⟩
    simp only [Option.isSome_or, h.pending, h.previous, List.find?_cons, counts]
    cases isLeading b.previous <;> cases separates b.depth token' <;> rfl
  · have breaks' : ¬ token'.IsBreak := by
      rw [Token.IsBreak, ← terminal]
      exact breaks
    rw [a.step_of_not_isBreak breaks, b.step_of_not_isBreak breaks', h.depth, terminal]
    refine ⟨?_, rfl, rfl, rfl⟩
    have pending := h.pending
    unfold State.release
    rw [terminal]
    cases hasA : a.pending <;> cases hasB : b.pending <;> rw [hasA, hasB] at pending
    · simp [same]
    · cases pending
    · cases pending
    · cases isAbsorbing token'.terminal <;> simp [same, erased_held]

/-- **Alike states let through the same of the same tokens**, but for blocks. -/
theorem State.Alike.run (h : a.Alike b) {tokens tokens' : List Token}
    (same : tokens.map Token.erased = tokens'.map Token.erased) :
    (a.run tokens).1.map Token.erased = (b.run tokens').1.map Token.erased := by
  induction tokens generalizing a b tokens' with
  | nil =>
    cases tokens' with
    | nil => rfl
    | cons => cases same
  | cons token tokens ih =>
    cases tokens' with
    | nil => cases same
    | cons token' tokens' =>
      obtain ⟨first, rest⟩ := List.cons.inj same
      obtain ⟨now, next⟩ := h.step first
      simp only [State.run, List.map_append, now, ih next rest]

end Alike

/-! ## The state after some tokens -/

/-- The state after some tokens. -/
def stateAfter (tokens : List Token) : State := (State.initial.run tokens).2

theorem depth_stateAfter (tokens : List Token) :
    (stateAfter tokens).depth = parenDepth tokens := by
  obtain ⟨earlier, run, h⟩ := exists_remembers tokens
  rw [stateAfter, h.depth, h.eq, parenDepth_append_of_isBreak h.run_isBreak]

theorem stateAfter_append (tokens : List Token) (token : Token) :
    stateAfter (tokens ++ [token]) = ((stateAfter tokens).step token).2 :=
  run_append_singleton tokens token

theorem separated_append_list (tokens more : List Token) :
    separated (tokens ++ more) = separated tokens ++ ((stateAfter tokens).run more).1 := by
  rw [separated, separated, State.run_append, stateAfter]

/-- A line end or a semicolon separates outside parentheses. -/
theorem separates_zero {token : Token} (breaks : token.IsBreak) : separates 0 token = true := by
  rcases breaks with h | h <;> simp [separates, h]

/-! ## Spare places -/

/-- A place between tokens where one more line end or semicolon counts for nothing. -/
inductive Spare (before after : List Token) : Prop
  | start : before = [] → Spare before after
  | finish : after = [] → Spare before after
  | afterBrace {token : Token} : before.getLast? = some token → token.terminal = .leftBrace →
      Spare before after
  | beforeWord {token : Token} : after.head? = some token →
      token.terminal ∈ [.rightBrace, .leftBrace, .elseWord, .thenWord, .doWord] →
      Spare before after
  | afterBreak {token : Token} : before.getLast? = some token → token.IsBreak →
      parenDepth before = 0 → Spare before after
  | beforeBreak {token : Token} : after.head? = some token → token.IsBreak →
      parenDepth before = 0 → Spare before after

/-- A line end or semicolon that is not held back leads to an alike state. -/
theorem State.alike_step (state : State) {token : Token} (breaks : token.IsBreak)
    (h : isLeading state.previous = true ∨ state.pending.isSome = true ∨
      separates state.depth token = false) : state.Alike (state.step token).2 := by
  rw [state.step_of_isBreak breaks]
  refine ⟨rfl, rfl, ?_⟩
  rcases h with h | h | h <;> simp [h, Option.isSome_or]

/-- A line end or semicolon outside parentheses, unless it leads, is held back or another is. -/
theorem State.pending_step (state : State) {token : Token} (breaks : token.IsBreak)
    (outside : state.depth = 0) :
    (state.step token).2.pending.isSome =
      (state.pending.isSome || !isLeading state.previous) := by
  rw [state.step_of_isBreak breaks, outside]
  cases isLeading state.previous <;> simp [separates_zero breaks]

/-- Outside parentheses it does not matter which line end or semicolon comes next. -/
theorem State.alike_step_step {a b : State} {token token' : Token} (breaks : token.IsBreak)
    (breaks' : token'.IsBreak) (outside : a.depth = 0) (depth : a.depth = b.depth)
    (previous : a.previous = b.previous)
    (pending : (a.pending.isSome || !isLeading a.previous) =
      (b.pending.isSome || !isLeading b.previous)) :
    (a.step token).2.Alike (b.step token').2 := by
  have pendingA := a.pending_step breaks outside
  have pendingB := b.pending_step breaks' (depth ▸ outside)
  rw [← pendingA, ← pendingB] at pending
  rw [a.step_of_isBreak breaks, b.step_of_isBreak breaks'] at pending ⊢
  exact ⟨depth, previous, pending⟩

theorem State.run_of_isBreak (state : State) {token : Token} (breaks : token.IsBreak)
    (rest : List Token) :
    (state.run (token :: rest)).1 = ((state.step token).2.run rest).1 := by
  rw [State.run, state.step_of_isBreak breaks]
  rfl

/-- Where a token absorbs a separator before it, it does not matter what is held back. -/
theorem State.run_of_isAbsorbing {a b : State} (depth : a.depth = b.depth) {next : Token}
    (absorbing : isAbsorbing next.terminal = true) (breaks : ¬ next.IsBreak)
    (rest : List Token) : a.run (next :: rest) = b.run (next :: rest) := by
  have release (state : State) : state.release next = [next] := by
    unfold State.release
    simp only [absorbing, if_true]
    split <;> rfl
  rw [State.run, State.run, a.step_of_not_isBreak breaks, b.step_of_not_isBreak breaks, release,
    release, depth]

section Edits

variable {before after after' : List Token} {token : Token}

/-- The tokens after a place may stand elsewhere. -/
theorem separated_moved (same : after.map Token.erased = after'.map Token.erased) :
    (separated (before ++ after)).map Token.erased =
      (separated (before ++ after')).map Token.erased := by
  have alike : (stateAfter before).Alike (stateAfter before) := ⟨rfl, rfl, rfl⟩
  rw [separated_append_list, separated_append_list, List.map_append, List.map_append,
    alike.run same]

/-- What one more line end or semicolon changes is what the states make of the tokens after. -/
theorem separated_insert_of_run (breaks : token.IsBreak)
    (run : ((stateAfter before).run after).1.map Token.erased =
      (((stateAfter before).step token).2.run after').1.map Token.erased) :
    (separated (before ++ after)).map Token.erased =
      (separated (before ++ token :: after')).map Token.erased := by
  rw [separated_append_list, separated_append_list, State.run_of_isBreak _ breaks,
    List.map_append, List.map_append, run]

/-- **At a spare place one more line end or semicolon changes nothing**, but for blocks. -/
theorem separated_insert (spare : Spare before after) (breaks : token.IsBreak)
    (same : after.map Token.erased = after'.map Token.erased) :
    (separated (before ++ after)).map Token.erased =
      (separated (before ++ token :: after')).map Token.erased := by
  refine separated_insert_of_run breaks ?_
  have alike (h : isLeading (stateAfter before).previous = true ∨
      (stateAfter before).pending.isSome = true) :=
    ((stateAfter before).alike_step breaks (h.imp_right .inl)).run same
  cases spare with
  | start none =>
    subst none
    exact alike (.inl rfl)
  | finish none =>
    subst none
    cases after' with
    | nil => rfl
    | cons => cases same
  | @afterBrace brace last leftBrace =>
    obtain ⟨earlier, rfl⟩ := List.getLast?_eq_some_iff.1 last
    have proper : ¬ brace.IsBreak := by simp [Token.IsBreak, leftBrace]
    refine alike (.inl ?_)
    rw [stateAfter_append, State.step_of_not_isBreak _ proper, leftBrace]
    rfl
  | @beforeWord next first word =>
    obtain ⟨rest, rfl⟩ := List.head?_eq_some_iff.1 first
    have absorbing : isAbsorbing next.terminal = true ∧ ¬ next.IsBreak := by
      simp only [List.mem_cons, List.not_mem_nil, or_false] at word
      rcases word with h | h | h | h | h <;> simp [h, isAbsorbing, Token.IsBreak]
    rw [State.run_of_isAbsorbing (b := ((stateAfter before).step token).2)
      (by rw [State.step_of_isBreak _ breaks]) absorbing.1 absorbing.2]
    exact State.Alike.run ⟨rfl, rfl, rfl⟩ same
  | @afterBreak last isLast lastBreaks outside =>
    obtain ⟨earlier, rfl⟩ := List.getLast?_eq_some_iff.1 isLast
    have depth : (stateAfter earlier).depth = 0 := by
      have breaks : ∀ token ∈ [last], token.IsBreak := by simpa using lastBreaks
      rw [depth_stateAfter, ← parenDepth_append_of_isBreak breaks, outside]
    have pending := (stateAfter earlier).pending_step lastBreaks depth
    have previous : (stateAfter (earlier ++ [last])).previous = (stateAfter earlier).previous := by
      rw [stateAfter_append, State.step_of_isBreak _ lastBreaks]
    rw [← stateAfter_append] at pending
    refine alike ?_
    rw [pending, previous]
    cases isLeading (stateAfter earlier).previous <;> simp
  | @beforeBreak next first nextBreaks outside =>
    obtain ⟨rest, rfl⟩ := List.head?_eq_some_iff.1 first
    cases after' with
    | nil => cases same
    | cons next' rest' =>
      obtain ⟨same, sames⟩ := List.cons.inj same
      have nextBreaks' : next'.IsBreak := by
        rw [Token.IsBreak, ← terminal_eq_of_erased same]
        exact nextBreaks
      have depth : (stateAfter before).depth = 0 := by rw [depth_stateAfter, outside]
      have pending := (stateAfter before).pending_step breaks depth
      rw [State.run_of_isBreak _ nextBreaks, State.run_of_isBreak _ nextBreaks']
      refine (State.alike_step_step nextBreaks nextBreaks' depth ?_ ?_ ?_).run sames
      · rw [State.step_of_isBreak _ breaks]
      · rw [State.step_of_isBreak _ breaks]
      · rw [pending, State.step_of_isBreak _ breaks, Bool.or_assoc, Bool.or_self]

/-- **In parentheses one more line end changes nothing**, but for blocks. -/
theorem separated_insert_lineEnd (inside : 0 < parenDepth before)
    (lineEnd : token.terminal = .newline)
    (same : after.map Token.erased = after'.map Token.erased) :
    (separated (before ++ after)).map Token.erased =
      (separated (before ++ token :: after')).map Token.erased := by
  have breaks : token.IsBreak := .inl lineEnd
  refine separated_insert_of_run breaks (((stateAfter before).alike_step breaks ?_).run same)
  have : parenDepth before ≠ 0 := Nat.pos_iff_ne_zero.1 inside
  exact .inr (.inr (by simp [separates, lineEnd, depth_stateAfter, this]))

/-- **Outside parentheses a line end may stand for a semicolon**, and a semicolon for a line
end. -/
theorem separated_replace {token' : Token} (outside : parenDepth before = 0)
    (breaks : token.IsBreak) (breaks' : token'.IsBreak)
    (same : after.map Token.erased = after'.map Token.erased) :
    (separated (before ++ token :: after)).map Token.erased =
      (separated (before ++ token' :: after')).map Token.erased := by
  have depth : (stateAfter before).depth = 0 := by rw [depth_stateAfter, outside]
  have run := (State.alike_step_step breaks breaks' depth rfl rfl rfl).run same
  rw [separated_append_list, separated_append_list, State.run_of_isBreak _ breaks,
    State.run_of_isBreak _ breaks', List.map_append, List.map_append, run]

end Edits

end Separator
end SmallImp
