/-
# Layout does not change the program

`LayoutEdit` lists the edits of a text that touch layout only: blanks between tokens, line ends in
parentheses, line ends and semicolons at spare places, and one kind of separator for the other.
After any number of them a program is the same program (`parse_layout`).

An edit leaves the tokens before it as they are, and those after it but for their blocks.  What
it adds between them counts for nothing when the separators are settled.
-/
import SmallImp.Proofs.Phrase.Places
import SmallImp.Proofs.Token.Spare
import SmallImp.Proofs.Token.Ways

namespace SmallImp

open Separator Terminal

/-! ## Edits -/

/-- A boundary between tokens of a text: the text before it and after it, and the tokens of the
two. -/
inductive Boundary : List Char → List Char → List Token → List Token → Prop
  | mk {used rest : List Char} {before after : List Token} {place last : Position} :
      Scanned (used ++ rest) .origin before rest place → Scanned rest place after [] last →
      Boundary used rest before after

/-- An edit of a text that touches its layout only. -/
inductive LayoutEdit : List Char → List Char → Prop
  /-- A blank between tokens. -/
  | blank {used rest : List Char} {before after : List Token} {c : Char} :
      Boundary used rest before after → Scan.isBlank c = true →
      LayoutEdit (used ++ rest) (used ++ c :: rest)
  /-- A line end between tokens inside parentheses. -/
  | lineEnd {used rest lineEnd : List Char} {before after : List Token} :
      Boundary used rest before after → 0 < parenDepth before → (lineEnd, newline) ∈ breaks →
      LayoutEdit (used ++ rest) (used ++ (lineEnd ++ rest))
  /-- A line end or a semicolon at a spare place. -/
  | spare {used rest lexeme : List Char} {before after : List Token} {t : Terminal} :
      Boundary used rest before after → Spare before after → (lexeme, t) ∈ breaks →
      LayoutEdit (used ++ rest) (used ++ (lexeme ++ rest))
  /-- A line end or a semicolon in place of another one outside parentheses. -/
  | replace {used rest old new : List Char} {before after : List Token} {t u : Terminal} :
      Boundary used (old ++ rest) before after → parenDepth before = 0 → (old, t) ∈ breaks →
      (new, u) ∈ breaks → LayoutEdit (used ++ (old ++ rest)) (used ++ (new ++ rest))

/-! ## What an edit does to the tokens -/

theorem isBreak_of_mem_breaks {lexeme : List Char} {token : Token}
    (mem : (lexeme, token.terminal) ∈ breaks) : token.IsBreak :=
  (by decide : ∀ p ∈ breaks, p.2 = newline ∨ p.2 = semicolon) _ mem

namespace Boundary

variable {used rest : List Char} {before after : List Token}

theorem scan (h : Boundary used rest before after) :
    scan (String.ofList (used ++ rest)) = ⟨before ++ after, none⟩ := by
  cases h with
  | mk first second => exact scan_of_scanned (first.trans second)

/-- The way up to a boundary, with other text after it. -/
theorem replaced (h : Boundary used rest before after) :
    ∃ place last, Scanned rest place after [] last ∧ ∀ rest', LayoutAhead rest' →
      Scanned (used ++ rest') .origin before rest' place := by
  cases h with
  | mk first second =>
    obtain ⟨used', eq, replaced⟩ := first.replace
    obtain rfl := List.append_cancel_right eq
    exact ⟨_, _, second, replaced⟩

theorem scan_blank (h : Boundary used rest before after) {c : Char}
    (blank : Scan.isBlank c = true) :
    ∃ after', SmallImp.scan (String.ofList (used ++ c :: rest)) = ⟨before ++ after', none⟩ ∧
      after.map Token.erased = after'.map Token.erased := by
  obtain ⟨place, last, second, replaced⟩ := h.replaced
  obtain ⟨after', last', second', same⟩ := second.moved (place.next c)
  have first := replaced (c :: rest) (layoutAhead_blank blank rest)
  exact ⟨after', scan_of_scanned (first.trans (.blank blank second')), same.symm⟩

/-- A line end or semicolon with its token, and the tokens after it. -/
theorem scan_break (h : Boundary used rest before after) {lexeme text : List Char}
    {t : Terminal} (mem : (lexeme, t) ∈ breaks) {place last : Position} {more : List Token}
    (way : Scanned text place more [] last) :
    ∃ token more', token.terminal = t ∧
      SmallImp.scan (String.ofList (used ++ (lexeme ++ text))) =
        ⟨before ++ token :: more', none⟩ ∧
      more.map Token.erased = more'.map Token.erased := by
  obtain ⟨middle, -, -, replaced⟩ := h.replaced
  obtain ⟨more', last', way', same⟩ := way.moved (middle.advance lexeme)
  have first := replaced (lexeme ++ text) (layoutAhead_break mem text)
  have whole := first.trans (.lexeme (isLongest_break mem text) way')
  exact ⟨_, more', rfl, scan_of_scanned whole, same.symm⟩

end Boundary

/-- **An edit of the layout changes none of the tokens that reach the grammar**, but for their
blocks. -/
theorem LayoutEdit.tokens {text text' : List Char} (h : LayoutEdit text text') :
    (tokensOf (String.ofList text)).map Token.erased =
        (tokensOf (String.ofList text')).map Token.erased ∧
      (scan (String.ofList text')).stop = none := by
  cases h with
  | blank boundary blank =>
    obtain ⟨after', scanned, same⟩ := boundary.scan_blank blank
    rw [tokensOf, tokensOf, boundary.scan, scanned]
    exact ⟨separated_moved same, rfl⟩
  | lineEnd boundary inside mem =>
    obtain ⟨place, last, way, -⟩ := boundary.replaced
    obtain ⟨token, after', terminal, scanned, same⟩ := boundary.scan_break mem way
    rw [tokensOf, tokensOf, boundary.scan, scanned]
    exact ⟨separated_insert_lineEnd inside terminal same, rfl⟩
  | spare boundary spare mem =>
    obtain ⟨place, last, way, -⟩ := boundary.replaced
    obtain ⟨token, after', rfl, scanned, same⟩ := boundary.scan_break mem way
    rw [tokensOf, tokensOf, boundary.scan, scanned]
    exact ⟨separated_insert spare (isBreak_of_mem_breaks mem) same, rfl⟩
  | replace boundary outside mem mem' =>
    obtain ⟨place, last, way, -⟩ := boundary.replaced
    obtain ⟨more, rfl, rest⟩ := way.of_isLongest rfl (isLongest_break mem _)
    obtain ⟨token, more', rfl, scanned, same⟩ := boundary.scan_break mem' rest
    rw [tokensOf, tokensOf, boundary.scan, scanned]
    exact ⟨separated_replace outside (isBreak_of_mem_breaks mem) (isBreak_of_mem_breaks mem') same,
      rfl⟩

/-! ## Programs -/

/-- **Layout does not change the program.**  After any number of edits of its layout a program is
a program, with the same tree but for its blocks. -/
theorem parse_layout {source source' : String} {tree : Command}
    (accepted : parse source = .ok tree)
    (edits : Relation.ReflTransGen LayoutEdit source.toList source'.toList) :
    ∃ tree', parse source' = .ok tree' ∧ tree.node.same tree'.node = true := by
  obtain ⟨scanned, items, program, rfl⟩ := parse_ok_iff.1 accepted
  have tokens : ∀ text, Relation.ReflTransGen LayoutEdit source.toList text →
      (tokensOf source).map Token.erased = (tokensOf (String.ofList text)).map Token.erased ∧
        (scan (String.ofList text)).stop = none := by
    intro text edits
    induction edits with
    | refl => rw [String.ofList_toList]; exact ⟨rfl, scanned⟩
    | tail _ edit ih => exact ⟨ih.1.trans edit.tokens.1, edit.tokens.2⟩
  obtain ⟨same, scanned'⟩ := tokens _ edits
  rw [String.ofList_toList] at same scanned'
  obtain ⟨items', program', sameTree⟩ := Phrase.program_erased program same
  exact ⟨items'.tree, parse_ok_iff.2 ⟨scanned', items', program', rfl⟩, sameTree⟩

/-- Two edits of a program: a line end in the parentheses, and one for the semicolon. -/
theorem parse_layout_lines :
    ∃ tree, parse "x=(1);y=2" = .ok tree ∧ ∃ tree', parse "x=(\n1)\r\ny=2" = .ok tree' ∧
      tree.node.same tree'.node = true := by
  have accepted : (parse "x=(1);y=2").toOption.isSome = true := by decide +kernel
  obtain ⟨tree, accepted⟩ : ∃ tree, parse "x=(1);y=2" = .ok tree := by
    cases result : parse "x=(1);y=2" with
    | ok tree => exact ⟨tree, rfl⟩
    | error => rw [result] at accepted; cases accepted
  have inside : Boundary ['x', '=', '('] ['1', ')', ';', 'y', '=', '2'] _ _ :=
    .mk
      (.of_lexeme? .identifier 1 rfl (.of_lexeme? .assign 1 rfl
        (.of_lexeme? .leftParen 1 rfl (.here _ _))))
      (.of_lexeme? .number 1 rfl (.of_lexeme? .rightParen 1 rfl (.of_lexeme? .semicolon 1 rfl
        (.of_lexeme? .identifier 1 rfl (.of_lexeme? .assign 1 rfl
          (.of_lexeme? .number 1 rfl (.here _ _)))))))
  have first : LayoutEdit (['x', '=', '('] ++ ['1', ')', ';', 'y', '=', '2'])
      (['x', '=', '('] ++ (['\n'] ++ ['1', ')', ';', 'y', '=', '2'])) :=
    .lineEnd inside (by decide) (by decide)
  have outside : Boundary ['x', '=', '(', '\n', '1', ')'] ([';'] ++ ['y', '=', '2']) _ _ :=
    .mk
      (.of_lexeme? .identifier 1 rfl (.of_lexeme? .assign 1 rfl (.of_lexeme? .leftParen 1 rfl
        (.of_lexeme? .newline 1 rfl (.of_lexeme? .number 1 rfl
          (.of_lexeme? .rightParen 1 rfl (.here _ _)))))))
      (.of_lexeme? .semicolon 1 rfl (.of_lexeme? .identifier 1 rfl
        (.of_lexeme? .assign 1 rfl (.of_lexeme? .number 1 rfl (.here _ _)))))
  have semicolon : ([';'], Terminal.semicolon) ∈ breaks := by decide
  have newline : (['\r', '\n'], Terminal.newline) ∈ breaks := by decide
  have second : LayoutEdit (['x', '=', '(', '\n', '1', ')'] ++ ([';'] ++ ['y', '=', '2']))
      (['x', '=', '(', '\n', '1', ')'] ++ (['\r', '\n'] ++ ['y', '=', '2'])) :=
    .replace outside (by decide) semicolon newline
  have edits : Relation.ReflTransGen LayoutEdit "x=(1);y=2".toList "x=(\n1)\r\ny=2".toList :=
    .tail (.single first) second
  exact ⟨tree, accepted, parse_layout accepted edits⟩

end SmallImp
