/-
# Where the tokens of a text stand

The tokens that scanning makes stand one after another, and at the block of each the text has
just its lexeme (`Scanned.inOrder`, `Scanned.cut_eq`).  Settling the separators leaves blocks out
and moves none: a separator stands where the one held back stood (`blocks_run_sublist`).

So the tokens of a source are in order (`inOrder_tokensOf`), each but a separator with its text
(`text_of_mem_tokensOf`), and they start and end with one that is no separator
(`exists_ends_tokensOf`).
-/
import SmallImp.Proofs.Grammar.Acceptance
import SmallImp.Proofs.Source.Blocks
import SmallImp.Proofs.Token.Scanned
import SmallImp.Proofs.Token.Separators

namespace SmallImp

/-! ## Scanning -/

section Scanned
variable {text rest : List Char} {place last : Position} {tokens : List Token}

/-- Scanning finds nothing before the place it starts at. -/
theorem Scanned.le_first (scanned : Scanned text place tokens rest last) :
    ∀ token ∈ tokens, place ≤ token.block.first := by
  induction scanned with
  | here => exact List.forall_mem_nil _
  | blank _ _ ih => exact fun token mem => (Position.lt_next _ _).le.trans (ih token mem)
  | lexeme _ _ ih =>
    refine List.forall_mem_cons.2 ⟨le_rfl, fun token mem => ?_⟩
    exact (Position.le_advance _ _).trans (ih token mem)

/-- **The tokens of a text stand one after another.** -/
theorem Scanned.inOrder (scanned : Scanned text place tokens rest last) :
    Block.InOrder (tokens.map Token.block) := by
  induction scanned with
  | here => exact ⟨List.forall_mem_nil _, .nil⟩
  | blank _ _ ih => exact ih
  | lexeme _ scanned ih =>
    rw [List.map_cons]
    exact {
      ordered := List.forall_mem_cons.2 ⟨Position.le_advance _ _, ih.ordered⟩
      pairwise := List.pairwise_cons.2 ⟨List.forall_mem_map.2 scanned.le_first, ih.pairwise⟩ }

/-- **At the block of a token the text has the lexeme of the token.** -/
theorem Scanned.cut_eq (scanned : Scanned text place tokens rest last) :
    ∀ token ∈ tokens, token.block.cut place text = token.text.toList := by
  induction scanned with
  | here => exact List.forall_mem_nil _
  | @blank c text place _ _ _ _ scanned ih =>
    intro token mem
    -- the block starts after the blank
    have later : place.advance [c] ≤ token.block.first := scanned.le_first token mem
    rw [← List.singleton_append, Block.cut_append, Block.cut_of_le later, List.nil_append]
    exact ih token mem
  | @lexeme t lexeme text place _ _ _ _ scanned ih =>
    refine List.forall_mem_cons.2 ⟨?_, fun token mem => ?_⟩
    · rw [Block.cut_append, Block.cut_of_within le_rfl le_rfl, Block.cut_of_ge le_rfl,
        List.append_nil, String.toList_ofList]
    · rw [Block.cut_append, Block.cut_of_le (scanned.le_first token mem), List.nil_append]
      exact ih token mem

end Scanned

/-! ## Separators -/

namespace Separator

/-- What is let through stands where tokens stood, in the same order. -/
theorem blocks_run_sublist (state : State) (tokens : List Token) :
    ((state.run tokens).1.map Token.block).Sublist
      ((state.pending.toList ++ tokens).map Token.block) := by
  induction tokens generalizing state with
  | nil => exact List.nil_sublist _
  | cons token rest ih =>
    rw [State.run]
    by_cases breaks : token.IsBreak
    · rw [State.step_of_isBreak _ breaks]
      refine (ih _).trans (List.Sublist.map _ ?_)
      -- the token is held back if it is the first one that counts
      cases state.pending with
      | some held => simp
      | none =>
        simp only [Option.none_or, Option.toList_none, List.nil_append]
        split
        · simp
        · cases result : [token].find? (separates state.depth) with
          | none => simp
          | some first =>
            rw [List.mem_singleton.1 (List.mem_of_find?_eq_some result)]
            simp
    · rw [State.step_of_not_isBreak _ breaks]
      have now : ((state.release token).map Token.block).Sublist
          ((state.pending.toList ++ [token]).map Token.block) := by
        rw [State.release]
        cases state.pending with
        | none => exact .refl _
        | some held =>
          dsimp only
          split <;> simp
      rw [List.append_cons, List.map_append, List.map_append]
      exact now.append (ih ⟨_, _, none⟩)

/-- A token that is no line end or semicolon is let through. -/
theorem getLast?_separated (tokens : List Token) {token : Token} (breaks : ¬ token.IsBreak) :
    (SmallImp.separated (tokens ++ [token])).getLast? = some token := by
  rw [separated_append, State.step_of_not_isBreak _ breaks, State.release, List.getLast?_append]
  split
  · split <;> rfl
  · rfl

/-- What is let through does not end with a separator. -/
theorem terminal_last_ne_separator {tokens : List Token}
    (proper : ∀ token ∈ tokens, token.terminal ≠ .separator) :
    ∀ token ∈ (SmallImp.separated tokens).getLast?, token.terminal ≠ .separator := by
  induction tokens using List.reverseRecOn with
  | nil => rintro _ ⟨⟩
  | append_singleton tokens last ih =>
    by_cases breaks : last.IsBreak
    · rw [separated_append, State.step_of_isBreak _ breaks, List.append_nil]
      exact ih fun token mem => proper token (List.mem_append_left _ mem)
    · rw [getLast?_separated tokens breaks]
      rintro _ ⟨⟩
      exact proper last (by simp)

/-- What is let through does not start with a separator: one stands after a token. -/
theorem terminal_head_ne_separator {tokens : List Token}
    (proper : ∀ token ∈ tokens, token.terminal ≠ .separator) :
    ∀ token ∈ (SmallImp.separated tokens).head?, token.terminal ≠ .separator := by
  intro token mem isSeparator
  obtain ⟨after, eq⟩ := List.head?_eq_some_iff.1 mem
  rw [← List.nil_append (token :: after)] at eq
  obtain ⟨gap, -, none⟩ := exists_gap proper isSeparator eq
  have last := getLast?_separated gap.earlier gap.last_isBreak
  rw [none] at last
  cases last

end Separator

/-! ## The block of some tokens -/

/-- The block from the start of the first of some tokens to the end of the last. -/
def Token.span (tokens : List Token) : Block := .hull (tokens.map Token.block)

/-- The place where some tokens end; for none it is the place before them. -/
def Token.endFrom (place : Position) (tokens : List Token) : Position :=
  tokens.foldl (fun _ token => token.block.last) place

section Spans
variable {place : Position} {token : Token} {tokens more : List Token}

theorem Token.span_append (nonempty : tokens ≠ []) (nonempty' : more ≠ []) :
    span (tokens ++ more) = (span tokens).through (span more) := by
  rw [span, List.map_append, Block.hull_append (by simpa) (by simpa), span, span]

theorem Token.span_cons (token : Token) (nonempty : tokens ≠ []) :
    span (token :: tokens) = token.block.through (span tokens) :=
  span_append (List.cons_ne_nil token []) nonempty

theorem Token.span_within {outer : Block} (nonempty : tokens ≠ [])
    (within : ∀ token ∈ tokens, token.block.Within outer) : (span tokens).Within outer :=
  Block.hull_within (by simpa) (List.forall_mem_map.2 within)

@[simp]
theorem Token.endFrom_nil : endFrom place [] = place := rfl

@[simp]
theorem Token.endFrom_cons : endFrom place (token :: tokens) = endFrom token.block.last tokens :=
  rfl

@[simp]
theorem Token.endFrom_append :
    endFrom place (tokens ++ more) = endFrom (endFrom place tokens) more :=
  List.foldl_append

/-- Tokens go from the start of the first to where the others end. -/
theorem Token.span_eq (token : Token) (tokens : List Token) :
    span (token :: tokens) = ⟨token.block.first, endFrom token.block.last tokens⟩ := by
  have last (block : Block) : endFrom block.last tokens =
      ((tokens.map Token.block).getLastD block).last := by
    induction tokens generalizing block with
    | nil => rfl
    | cons next rest ih => rw [endFrom_cons, ih, List.map_cons, List.getLastD_cons]
  rw [last]
  rfl

theorem Token.endFrom_eq (nonempty : tokens ≠ []) : endFrom place tokens = (span tokens).last := by
  cases tokens with
  | nil => exact absurd rfl nonempty
  | cons token rest => rw [endFrom_cons, span_eq]

end Spans

/-! ## The tokens of a source -/

/-- **The tokens of a source stand one after another.** -/
theorem inOrder_tokensOf (source : String) :
    Block.InOrder ((tokensOf source).map Token.block) := by
  obtain ⟨_, _, scanned, -⟩ := scan_scanned source
  exact scanned.inOrder.sublist (Separator.blocks_run_sublist .initial _)

/-- **At the block of a token the source has the text of the token.** -/
theorem text_of_mem_tokensOf {source : String} {token : Token} (mem : token ∈ tokensOf source)
    (proper : token.terminal ≠ .separator) : token.block.text source = token.text := by
  obtain ⟨_, _, scanned, -⟩ := scan_scanned source
  rw [Block.text, scanned.cut_eq token (Separator.mem_of_mem_separated mem proper),
    String.ofList_toList]

/-- The tokens of a source that are no separators. -/
def properTokensOf (source : String) : List Token :=
  (tokensOf source).filter (·.terminal ≠ .separator)

/-- The tokens of a source start and end with one that is no separator. -/
theorem exists_ends_tokensOf {source : String} (nonempty : tokensOf source ≠ []) :
    ∃ first last, (properTokensOf source).head? = some first ∧
      (properTokensOf source).getLast? = some last ∧
      Token.span (tokensOf source) = first.block.through last.block := by
  obtain ⟨_, _, scanned, -⟩ := scan_scanned source
  have proper := scanned.terminal_ne_separator
  obtain ⟨first, head⟩ : ∃ first, (tokensOf source).head? = some first :=
    ⟨_, List.head?_eq_some_head nonempty⟩
  obtain ⟨last, final⟩ : ∃ last, (tokensOf source).getLast? = some last :=
    ⟨_, List.getLast?_eq_some_getLast nonempty⟩
  have starts := Separator.terminal_head_ne_separator proper first head
  have ends := Separator.terminal_last_ne_separator proper last final
  refine ⟨first, last, ?_, ?_, Block.hull_eq_through ?_ ?_⟩
  · obtain ⟨rest, eq⟩ := List.head?_eq_some_iff.1 head
    simp [properTokensOf, eq, starts]
  · obtain ⟨earlier, eq⟩ := List.getLast?_eq_some_iff.1 final
    simp [properTokensOf, eq, ends]
  · rw [List.head?_map, head, Option.map_some]
  · rw [List.getLast?_map, final, Option.map_some]

/-! ## Tokens that stand in a row -/

section Infixes
variable {source : String} {token : Token} {tokens more : List Token}

theorem infix_of_cons (inside : token :: tokens <:+: tokensOf source) :
    token ∈ tokensOf source ∧ tokens <:+: tokensOf source :=
  ⟨inside.subset List.mem_cons_self, (List.suffix_cons token tokens).isInfix.trans inside⟩

theorem infix_of_append (inside : tokens ++ more <:+: tokensOf source) :
    tokens <:+: tokensOf source ∧ more <:+: tokensOf source :=
  ⟨(List.prefix_append tokens more).isInfix.trans inside,
    (List.suffix_append tokens more).isInfix.trans inside⟩

theorem inOrder_blocks (inside : tokens <:+: tokensOf source) :
    Block.InOrder (tokens.map Token.block) :=
  (inOrder_tokensOf source).sublist (inside.sublist.map Token.block)

/-- Tokens of a source lie within the block that covers them. -/
theorem within_span (inside : tokens <:+: tokensOf source) :
    ∀ token ∈ tokens, token.block.Within (Token.span tokens) :=
  List.forall_mem_map.1 (inOrder_blocks inside).within_hull

theorem ordered_span (inside : tokens <:+: tokensOf source) :
    (Token.span tokens).first ≤ (Token.span tokens).last :=
  (inOrder_blocks inside).ordered_hull

end Infixes

end SmallImp
