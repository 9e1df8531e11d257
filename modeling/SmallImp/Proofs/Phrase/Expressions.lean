/-
# Expressions are read as they are spelled

What the readers of expressions read is spelled by the tokens that they took (`Yields`), and what
is spelled is read again, before any tokens that do not go on with an operator of its level or of
a tighter one (`Level.Spells.read`).  The second is an induction on how the expression is spelled:
a chain that groups to the left is spelled from its end, and read from its start, so for such a
level the induction says how far the reader of chains has come.
-/
import SmallImp.Proofs.Phrase.Spelling

namespace SmallImp

open Phrase

namespace Phrase

/-! ## What a reader takes -/

/-- What was read is related to the tokens that were taken. -/
def Yields {α : Type} (spells : α → List Token → Prop) (tokens : List Token) : Reading α → Prop
  | .read phrase rest => ∃ used, tokens = used ++ rest ∧ spells phrase used
  | .failed _ => True

namespace Yields

variable {α β : Type} {P : α → List Token → Prop} {Q : β → List Token → Prop}
variable {tokens : List Token} {reading : Reading α}

theorem mono {P' : α → List Token → Prop} (h : Yields P tokens reading)
    (le : ∀ phrase used, P phrase used → P' phrase used) : Yields P' tokens reading := by
  cases reading with
  | read phrase rest =>
    obtain ⟨used, eq, here⟩ := h
    exact ⟨used, eq, le phrase used here⟩
  | failed => trivial

theorem map (h : Yields P tokens reading) (make : α → β)
    (spells : ∀ phrase used, P phrase used → Q (make phrase) used) :
    Yields Q tokens (reading.map make) := by
  cases reading with
  | read phrase rest =>
    obtain ⟨used, eq, here⟩ := h
    exact ⟨used, eq, spells phrase used here⟩
  | failed => trivial

/-- **Readers in a row take tokens in a row.** -/
theorem andThen {next : α → List Token → Reading β} (h : Yields P tokens reading)
    (second : ∀ phrase used rest, reading = .read phrase rest → P phrase used →
      Yields (fun result more => Q result (used ++ more)) rest (next phrase rest)) :
    Yields Q tokens (reading.andThen next) := by
  cases reading with
  | failed => trivial
  | read phrase rest =>
    obtain ⟨used, rfl, here⟩ := h
    have after := second phrase used rest rfl here
    rw [Reading.andThen_read]
    cases result : next phrase rest with
    | failed => trivial
    | read phrase' rest' =>
      rw [result] at after
      obtain ⟨more, rfl, there⟩ := after
      exact ⟨used ++ more, (List.append_assoc ..).symm, there⟩

/-- A token that has been taken stands before those taken after it. -/
theorem token {first : Token}
    (h : Yields (fun phrase used => P phrase (first :: used)) tokens reading) :
    Yields P (first :: tokens) reading := by
  cases reading with
  | read phrase rest =>
    obtain ⟨used, rfl, here⟩ := h
    exact ⟨first :: used, rfl, here⟩
  | failed => trivial

theorem one {first : Token} {rest : List Token} {phrase : α} (here : P phrase [first]) :
    Yields P (first :: rest) (.read phrase rest) := ⟨[first], rfl, here⟩

theorem none {phrase : α} (here : P phrase []) : Yields P tokens (.read phrase tokens) :=
  ⟨[], rfl, here⟩

/-- One expected token. -/
theorem expect (terminal : Terminal) (tokens : List Token) :
    Yields (fun token used => token.terminal = terminal ∧ used = [token]) tokens
      (Phrase.expect terminal tokens) := by
  cases tokens with
  | nil => trivial
  | cons token rest =>
    rw [Phrase.expect]
    split
    case isTrue same => exact ⟨[token], rfl, same, rfl⟩
    case isFalse => trivial

/-- One expected token, with more after it. -/
theorem expect_andThen {terminal : Terminal} {next : Token → List Token → Reading β}
    (second : ∀ token rest, token.terminal = terminal →
      Yields (fun result more => Q result (token :: more)) rest (next token rest)) :
    Yields Q tokens ((Phrase.expect terminal tokens).andThen next) := by
  refine (expect terminal tokens).andThen fun token used rest _ here => ?_
  obtain ⟨same, rfl⟩ := here
  exact second token rest same

end Yields

/-! ## What is read is spelled -/

/-- What the readers of expressions take with some fuel. -/
structure ExpressionsYield (fuel : Nat) : Prop where
  expression : ∀ (ℓ : Level) (tokens : List Token),
    Yields ℓ.Spells tokens (expression fuel ℓ tokens)
  atom : ∀ tokens : List Token, Yields Level.atom.Spells tokens (atom fuel tokens)
  operation : ∀ (ℓ : Level) (left : Expr) (before tokens : List Token), ℓ.isBinary = true →
    ℓ.fixity ≠ .left → ℓ.next.Spells left before →
    Yields (fun e used => ℓ.Spells e (before ++ used)) tokens
      (operation fuel ℓ ℓ.rightOperand left tokens)
  chain : ∀ (ℓ : Level) (left : Expr) (before tokens : List Token), ℓ.fixity = .left →
    ℓ.Spells left before →
    Yields (fun e used => ℓ.Spells e (before ++ used)) tokens (chain fuel ℓ left tokens)

namespace ExpressionsYield

variable {fuel : Nat}

theorem atom_succ (ih : ExpressionsYield fuel) (tokens : List Token) :
    Yields Level.atom.Spells tokens (Phrase.atom (fuel + 1) tokens) := by
  cases tokens with
  | nil => trivial
  | cons token rest =>
    rw [Phrase.atom]
    split
    case h_1 h => exact .one (.number h)
    case h_2 h => exact .one (.boolean (.inl h))
    case h_3 h => exact .one (.boolean (.inr h))
    case h_4 h => exact .one (.name h)
    case h_5 h =>
      refine .token ((ih.expression .logic rest).andThen fun inner used rest _ here => ?_)
      refine (Yields.expect .rightParen rest).map _ fun closing _ there => ?_
      obtain ⟨closes, rfl⟩ := there
      exact .parenthesis h here closes
    case h_6 => trivial

theorem operation_succ (ih : ExpressionsYield fuel) (ℓ : Level) (left : Expr)
    (before tokens : List Token) (binary : ℓ.isBinary = true) (chainless : ℓ.fixity ≠ .left)
    (spells : ℓ.next.Spells left before) :
    Yields (fun e used => ℓ.Spells e (before ++ used)) tokens
      (Phrase.operation (fuel + 1) ℓ ℓ.rightOperand left tokens) := by
  have alone : ℓ.Spells left (before ++ []) := by
    rw [List.append_nil]
    exact .tighter (fun closed => by simp [Level.isBinary, closed] at binary) spells
  cases tokens with
  | nil => exact .none alone
  | cons token rest =>
    rw [Phrase.operation]
    split
    case isTrue here =>
      refine .token ((ih.expression ℓ.rightOperand rest).map _ fun right used there => ?_)
      exact .binary binary (by rwa [Level.leftOperand, if_neg chainless]) here there
    case isFalse => exact .none alone

theorem chain_succ (ih : ExpressionsYield fuel) (ℓ : Level) (left : Expr)
    (before tokens : List Token) (grouped : ℓ.fixity = .left) (spells : ℓ.Spells left before) :
    Yields (fun e used => ℓ.Spells e (before ++ used)) tokens
      (Phrase.chain (fuel + 1) ℓ left tokens) := by
  have alone : ℓ.Spells left (before ++ []) := by rwa [List.append_nil]
  cases tokens with
  | nil => exact .none alone
  | cons token rest =>
    rw [Phrase.chain]
    split
    case isTrue here =>
      refine .token ((ih.expression ℓ.next rest).andThen fun right used rest _ there => ?_)
      have longer : ℓ.Spells (binaryExpr left token right) (before ++ token :: used) :=
        .binary (by rw [Level.isBinary, grouped]) (by rwa [Level.leftOperand, if_pos grouped]) here
          (by rwa [Level.rightOperand, if_neg (by simp [grouped])])
      simpa using ih.chain ℓ _ _ rest grouped longer
    case isFalse => exact .none alone

theorem expression_succ (ih : ExpressionsYield fuel) (ℓ : Level) (tokens : List Token) :
    Yields ℓ.Spells tokens (Phrase.expression (fuel + 1) ℓ tokens) := by
  -- what is read at the next level, where there is one
  have next (open_ : ℓ.fixity ≠ .closed) :
      Yields ℓ.Spells tokens (Phrase.expression fuel ℓ.next tokens) :=
    (ih.expression ℓ.next tokens).mono fun e used => .tighter open_
  unfold Phrase.expression
  cases h : ℓ.fixity with
  | closed =>
    obtain rfl : ℓ = .atom := by cases ℓ <;> first | rfl | cases h
    exact ih.atom tokens
  | leading =>
    cases tokens with
    | nil => exact next (by simp [h])
    | cons token rest =>
      simp only
      split
      case isTrue here =>
        exact .token ((ih.expression ℓ rest).map _ fun operand used => .leading h here)
      case isFalse => exact next (by simp [h])
  | left =>
    refine (ih.expression ℓ.next tokens).andThen fun left used rest _ here => ?_
    exact ih.chain ℓ left used rest h (.tighter (by simp [h]) here)
  | once =>
    refine (ih.expression ℓ.next tokens).andThen fun left used rest _ here => ?_
    have := ih.operation ℓ left used rest (by rw [Level.isBinary, h]) (by simp [h]) here
    rwa [Level.rightOperand, if_neg (by simp [h])] at this
  | right =>
    refine (ih.expression ℓ.next tokens).andThen fun left used rest _ here => ?_
    have := ih.operation ℓ left used rest (by rw [Level.isBinary, h]) (by simp [h]) here
    rwa [Level.rightOperand, if_pos h] at this

end ExpressionsYield

/-- **What the readers of expressions read is spelled by the tokens that they took.** -/
theorem expressionsYield (fuel : Nat) : ExpressionsYield fuel := by
  induction fuel with
  | zero =>
    refine ⟨fun _ _ => trivial, fun _ => trivial, ?_, ?_⟩
    · intro ℓ left before tokens binary _ spells
      cases tokens with
      | nil =>
        refine .none ?_
        rw [List.append_nil]
        exact .tighter (fun closed => by simp [Level.isBinary, closed] at binary) spells
      | cons => trivial
    · intro ℓ left before tokens _ spells
      cases tokens with
      | nil => exact .none (by rwa [List.append_nil])
      | cons => trivial
  | succ fuel ih =>
    exact ⟨ih.expression_succ, ih.atom_succ, ih.operation_succ, ih.chain_succ⟩

end Phrase

/-! ## What is spelled is read -/

namespace Level

/-- Whether tokens do not go on with an operator of a level or of a tighter one. -/
def StopsAt (ℓ : Level) (rest : List Token) : Prop :=
  ∀ token ∈ rest.head?, ∀ m, ofOperator? token.terminal = some m → ℓ.height < m.height

variable {ℓ : Level} {e : Expr} {tokens rest : List Token}

theorem StopsAt.next (h : ℓ.StopsAt rest) (open_ : ℓ.fixity ≠ .closed) : ℓ.next.StopsAt rest :=
  fun token mem m operator => by
    have := h token mem m operator
    have := height_next open_
    omega

theorem StopsAt.nextIs_eq_false (h : ℓ.StopsAt rest) (binary : ℓ.isBinary = true) :
    nextIs ℓ.hasOperator rest = false := by
  cases rest with
  | nil => rfl
  | cons token rest =>
    by_contra operator
    have operator : ℓ.hasOperator token.terminal = true := by simpa [nextIs] using operator
    have := h token rfl ℓ (ofOperator?_of_hasOperator binary operator)
    omega

theorem stopsAt_cons {token : Token} (h : ofOperator? token.terminal = none) :
    ℓ.StopsAt (token :: rest) := by
  rintro _ ⟨⟩ m operator
  rw [h] at operator
  cases operator

/-- Before an operator of a level stands an operand of the next one. -/
theorem stopsAt_next_of_hasOperator {token : Token} (binary : ℓ.isBinary = true)
    (h : ℓ.hasOperator token.terminal = true) : ℓ.next.StopsAt (token :: rest) := by
  rintro _ ⟨⟩ m operator
  rw [ofOperator?_of_hasOperator binary h] at operator
  obtain rfl := Option.some.inj operator
  have := height_next (ℓ := ℓ) fun closed => by simp [isBinary, closed] at binary
  omega

/-- An expression has a first token, and it is one that its level can start with. -/
theorem Spells.exists_cons (h : ℓ.Spells e tokens) :
    ∃ token more, tokens = token :: more ∧ ℓ.startsWith token.terminal = true := by
  induction h with
  | number h | name h => exact ⟨_, [], rfl, by rw [h]; rfl⟩
  | boolean h => exact ⟨_, [], rfl, by rcases h with h | h <;> rw [h] <;> rfl⟩
  | parenthesis h => exact ⟨_, _, rfl, by rw [h]; rfl⟩
  | tighter _ _ ih =>
    obtain ⟨token, more, rfl, starts⟩ := ih
    exact ⟨token, more, rfl, startsWith_of_next starts⟩
  | leading leading operator _ _ =>
    exact ⟨_, _, rfl, (startsWith_of_leading leading operator).1⟩
  | @binary ℓ _ _ _ _ _ _ _ _ _ ih _ =>
    obtain ⟨token, more, rfl, starts⟩ := ih
    refine ⟨token, _, rfl, ?_⟩
    unfold leftOperand at starts
    split at starts
    · exact starts
    · exact startsWith_of_next starts

/-- Where no operator of a level is next, a chain ends. -/
theorem chain_read {fuel : Nat} (left : Expr) (stops : nextIs ℓ.hasOperator rest = false)
    (enough : 16 * rest.length ≤ fuel) : chain fuel ℓ left rest = .read left rest := by
  cases rest with
  | nil => cases fuel <;> rfl
  | cons token rest =>
    rw [List.length_cons] at enough
    obtain ⟨fuel, rfl⟩ : ∃ k, fuel = k + 1 := ⟨fuel - 1, by omega⟩
    rw [nextIs] at stops
    rw [chain, if_neg (by simp [stops])]

/-- Where no operator of a level is next, an operand stands alone. -/
theorem operation_read {fuel : Nat} {operand : Level} (left : Expr)
    (stops : nextIs ℓ.hasOperator rest = false) (enough : 16 * rest.length ≤ fuel) :
    operation fuel ℓ operand left rest = .read left rest := by
  cases rest with
  | nil => cases fuel <;> rfl
  | cons token rest =>
    rw [List.length_cons] at enough
    obtain ⟨fuel, rfl⟩ : ∃ k, fuel = k + 1 := ⟨fuel - 1, by omega⟩
    rw [nextIs] at stops
    rw [operation, if_neg (by simp [stops])]

/-- The tokens of an expression are read as that expression. -/
def Rereads (ℓ : Level) (e : Expr) (tokens : List Token) : Prop :=
  ∀ fuel rest, ℓ.StopsAt rest → 16 * (tokens ++ rest).length + ℓ.height < fuel →
    expression fuel ℓ (tokens ++ rest) = .read e rest

/-- The reader of chains comes to an expression, with fuel for the tokens left. -/
def Reaches (ℓ : Level) (e : Expr) (tokens : List Token) : Prop :=
  ∀ fuel rest, ℓ.next.StopsAt rest → 16 * (tokens ++ rest).length + ℓ.height < fuel →
    ∃ less, 16 * rest.length ≤ less ∧ expression fuel ℓ (tokens ++ rest) = chain less ℓ e rest

theorem Reaches.rereads (h : ℓ.Reaches e tokens) (grouped : ℓ.fixity = .left) :
    ℓ.Rereads e tokens := by
  intro fuel rest stops enough
  obtain ⟨less, enough', eq⟩ := h fuel rest (stops.next (by simp [grouped])) enough
  rw [eq, chain_read e (stops.nextIs_eq_false (by rw [isBinary, grouped])) enough']

/-- A first operand of a chain that groups to the left. -/
theorem Rereads.reaches (h : ℓ.next.Rereads e tokens) (grouped : ℓ.fixity = .left) :
    ℓ.Reaches e tokens := by
  intro fuel rest stops enough
  have height := height_next (ℓ := ℓ) (by simp [grouped])
  obtain ⟨fuel, rfl⟩ : ∃ k, fuel = k + 1 := ⟨fuel - 1, by omega⟩
  refine ⟨fuel, by rw [List.length_append] at enough; omega, ?_⟩
  unfold expression
  simp only [grouped, h fuel rest stops (by omega), Reading.andThen_read]

/-- One more operator and operand of a chain that groups to the left. -/
theorem Reaches.binary {right : Expr} {operator : Token} {after : List Token}
    (h : ℓ.Reaches e tokens) (operand : ℓ.next.Rereads right after) (grouped : ℓ.fixity = .left)
    (here : ℓ.hasOperator operator.terminal = true) :
    ℓ.Reaches (binaryExpr e operator right) (tokens ++ operator :: after) := by
  intro fuel rest stops enough
  have binary : ℓ.isBinary = true := by rw [isBinary, grouped]
  rw [List.append_assoc, List.cons_append] at enough ⊢
  obtain ⟨less, enough', eq⟩ := h fuel _ (stopsAt_next_of_hasOperator binary here) enough
  rw [List.length_cons, List.length_append] at enough'
  obtain ⟨less, rfl⟩ : ∃ k, less = k + 1 := ⟨less - 1, by omega⟩
  have bound := ℓ.next.height_le
  have read := operand less rest stops (by rw [List.length_append]; omega)
  refine ⟨less, by omega, ?_⟩
  rw [eq, chain, if_pos here, read, Reading.andThen_read]

/-- An operand with an operator and one more operand, at a level without chains to the left. -/
theorem Rereads.binary {right : Expr} {operator : Token} {before after : List Token}
    (h : ℓ.next.Rereads e before) (operand : ℓ.rightOperand.Rereads right after)
    (isBinary : ℓ.isBinary = true) (chainless : ℓ.fixity ≠ .left)
    (here : ℓ.hasOperator operator.terminal = true) :
    ℓ.Rereads (binaryExpr e operator right) (before ++ operator :: after) := by
  intro fuel rest stops enough
  have open_ : ℓ.fixity ≠ .closed := fun closed => by simp [Level.isBinary, closed] at isBinary
  have height := height_next open_
  have bound := ℓ.rightOperand.height_le
  rw [List.append_assoc, List.cons_append] at enough ⊢
  have shorter : (operator :: (after ++ rest)).length ≤
      (before ++ operator :: (after ++ rest)).length := by simp
  rw [List.length_cons] at shorter
  obtain ⟨fuel, rfl⟩ : ∃ k, fuel = k + 2 := ⟨fuel - 2, by omega⟩
  have first := h (fuel + 1) (operator :: (after ++ rest))
    (stopsAt_next_of_hasOperator isBinary here) (by omega)
  have stops' : ℓ.rightOperand.StopsAt rest := by
    unfold rightOperand
    split
    · exact stops
    · exact stops.next open_
  have second := operand fuel rest stops' (by omega)
  have operation : operation (fuel + 1) ℓ ℓ.rightOperand e (operator :: (after ++ rest)) =
      .read (binaryExpr e operator right) rest := by
    rw [Phrase.operation, if_pos here, second, Reading.map_read]
  unfold expression
  cases fixity : ℓ.fixity with
  | closed => exact absurd fixity open_
  | left => exact absurd fixity chainless
  | leading => simp [Level.isBinary, fixity] at isBinary
  | once =>
    rw [rightOperand, if_neg (by simp [fixity])] at operation
    simp only [first, Reading.andThen_read, operation]
  | right =>
    rw [rightOperand, if_pos fixity] at operation
    simp only [first, Reading.andThen_read, operation]

/-- An operand alone. -/
theorem Rereads.tighter (h : ℓ.next.Rereads e tokens) (spells : ℓ.next.Spells e tokens)
    (open_ : ℓ.fixity ≠ .closed) : ℓ.Rereads e tokens := by
  intro fuel rest stops enough
  have height := height_next open_
  obtain ⟨fuel, rfl⟩ : ∃ k, fuel = k + 1 := ⟨fuel - 1, by omega⟩
  have read := h fuel rest (stops.next open_) (by omega)
  have less : 16 * rest.length ≤ fuel := by rw [List.length_append] at enough; omega
  have none (binary : ℓ.isBinary = true) := stops.nextIs_eq_false binary
  unfold expression
  cases fixity : ℓ.fixity with
  | closed => exact absurd fixity open_
  | leading =>
    -- no expression of the next level starts with a prefix of this one
    obtain ⟨token, more, rfl, starts⟩ := spells.exists_cons
    have other : ℓ.hasOperator token.terminal = false := by
      by_contra here
      have := (startsWith_of_leading fixity (by simpa using here)).2
      rw [starts] at this
      cases this
    rw [List.cons_append] at read ⊢
    simp only [other, read, Bool.false_eq_true, if_false]
  | left =>
    simp only [read, Reading.andThen_read]
    exact chain_read e (none (by rw [isBinary, fixity])) less
  | once | right =>
    simp only [read, Reading.andThen_read]
    exact operation_read e (none (by rw [isBinary, fixity])) less

/-- An atom is read by the reader of atoms. -/
theorem rereads_atom
    (h : ∀ fuel rest, 16 * (tokens ++ rest).length < fuel + 1 →
      Phrase.atom (fuel + 1) (tokens ++ rest) = .read e rest) : atom.Rereads e tokens := by
  intro fuel rest _ enough
  obtain ⟨fuel, rfl⟩ : ∃ k, fuel = k + 2 := ⟨fuel - 2, by simp only [height] at enough; omega⟩
  unfold expression
  simp only [fixity]
  exact h fuel rest (by simp only [height] at enough; omega)

/-- **What is spelled is read again**, and where chains group to the left, the reader of chains
comes to it. -/
theorem Spells.rereads (h : ℓ.Spells e tokens) :
    ℓ.Rereads e tokens ∧ (ℓ.fixity = .left → ℓ.Reaches e tokens) := by
  induction h with
  | number h | name h =>
    refine ⟨rereads_atom fun fuel rest _ => ?_, nofun⟩
    rw [List.singleton_append, Phrase.atom]
    simp only [h]
  | boolean h =>
    refine ⟨rereads_atom fun fuel rest _ => ?_, nofun⟩
    rw [List.singleton_append, Phrase.atom]
    rcases h with h | h <;> simp only [h]
  | @parenthesis opening closing inner tokens opens _ closes ih =>
    refine ⟨rereads_atom fun fuel rest enough => ?_, nofun⟩
    rw [List.cons_append, List.append_assoc, List.singleton_append] at enough ⊢
    rw [List.length_cons] at enough
    have stops : logic.StopsAt (closing :: rest) := stopsAt_cons (by rw [closes]; rfl)
    have read := ih.1 fuel (closing :: rest) stops (by simp only [height]; omega)
    rw [Phrase.atom]
    simp only [opens, read, Reading.andThen_read, expect, closes, if_true, Reading.map_read]
  | tighter open_ spells ih =>
    exact ⟨ih.1.tighter spells open_, fun grouped => ih.1.reaches grouped⟩
  | @leading ℓ operator operand tokens leading here _ ih =>
    refine ⟨fun fuel rest stops enough => ?_, fun grouped => by simp [leading] at grouped⟩
    rw [List.cons_append] at enough ⊢
    rw [List.length_cons] at enough
    obtain ⟨fuel, rfl⟩ : ∃ k, fuel = k + 1 := ⟨fuel - 1, by omega⟩
    unfold expression
    simp only [leading, here, if_true, ih.1 fuel rest stops (by omega), Reading.map_read]
  | @binary ℓ left right operator before after binary _ here _ ihLeft ihRight =>
    by_cases grouped : ℓ.fixity = .left
    · rw [leftOperand, if_pos grouped] at ihLeft
      rw [rightOperand, if_neg (by simp [grouped])] at ihRight
      have reaches := (ihLeft.2 grouped).binary ihRight.1 grouped here
      exact ⟨reaches.rereads grouped, fun _ => reaches⟩
    · rw [leftOperand, if_neg grouped] at ihLeft
      exact ⟨ihLeft.1.binary ihRight.1 binary grouped here, fun left => absurd left grouped⟩

/-- **A whole expression is read before what no expression goes on with.** -/
theorem Spells.read (h : logic.Spells e tokens) (fuel : Nat) (stops : logic.StopsAt rest)
    (enough : 16 * (tokens ++ rest).length + 9 < fuel) :
    expression fuel .logic (tokens ++ rest) = .read e rest :=
  h.rereads.1 fuel rest stops enough

end Level
end SmallImp
