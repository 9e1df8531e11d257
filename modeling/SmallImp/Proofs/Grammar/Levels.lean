/-
# The languages of expressions

The levels of expressions in the grammar, as equations in one form for all levels of one fixity
(`Level.language_once`, `Level.language_right`, `Level.language_left`,
`Level.language_leading`): an operand at the next level comes first, and what may follow it
starts with an operator of the level.  The grammar has the chains that group to the left as a
left recursion; Arden's lemma turns it into a repetition.

Two sets of terminals decide what a reader does next.  `Level.startsWith` holds those that a
word of a level can start with, and `Level.Follows` is about words after an expression: none of
them goes on with an operator of the level or of a tighter one.
-/
import SmallImp.Phrase.Level
import SmallImp.Proofs.Grammar.Basic

namespace SmallImp

open Grammar
open scoped Computability

/-! ## Languages by their first terminals -/

/-- Whether all words of a language start with a terminal of a kind. -/
def StartsWith (test : Terminal → Bool) (words : Language Terminal) : Prop :=
  ∀ word ∈ words, ∃ t rest, word = t :: rest ∧ test t = true

namespace StartsWith

variable {test test' : Terminal → Bool} {X Y : Language Terminal}

theorem mono (h : StartsWith test X) (sub : ∀ t, test t = true → test' t = true) :
    StartsWith test' X := fun word hw => by
  obtain ⟨t, rest, rfl, ht⟩ := h word hw
  exact ⟨t, rest, rfl, sub t ht⟩

theorem add (hX : StartsWith test X) (hY : StartsWith test Y) : StartsWith test (X + Y) :=
  fun word hw => ((Language.mem_add ..).1 hw).elim (hX word) (hY word)

theorem mul (hX : StartsWith test X) (Y : Language Terminal) : StartsWith test (X * Y) := by
  intro word hw
  obtain ⟨u, hu, v, _, rfl⟩ := Language.mem_mul.1 hw
  obtain ⟨t, rest, rfl, ht⟩ := hX u hu
  exact ⟨t, rest ++ v, rfl, ht⟩

theorem single {t : Terminal} (ht : test t = true) : StartsWith test (single t) := by
  rintro _ rfl
  exact ⟨t, [], rfl, ht⟩

theorem nil_notMem (h : StartsWith test X) : [] ∉ X := fun hw => by
  obtain ⟨t, rest, eq, _⟩ := h [] hw
  cases eq

theorem test_of_mem (h : StartsWith test X) {t : Terminal} {rest : List Terminal}
    (hw : t :: rest ∈ X) : test t = true := by
  obtain ⟨_, _, ⟨⟩, ht⟩ := h _ hw
  exact ht

end StartsWith

/-- A left recursion is a repetition after its start. -/
theorem eq_mul_kstar_of_eq_add_mul {X Y Z : Language Terminal} (hY : [] ∉ Y)
    (h : X = Z + X * Y) : X = Z * Y∗ := by
  have reversed : X.reverse = Y.reverse * X.reverse + Z.reverse := by
    rw [← Language.reverse_mul, ← Language.reverse_add, add_comm, ← h]
  have solved := (Language.self_eq_mul_add_iff (by simpa using hY)).1 reversed
  rw [← Language.reverse_kstar, ← Language.reverse_mul] at solved
  exact Language.reverse_injective solved

namespace Level

/-! ## Levels from the tightest on -/

/-- The number of levels from a level on. -/
def height : Level → Nat
  | logic => 9
  | negation => 8
  | equality => 7
  | relation => 6
  | power => 5
  | sum => 4
  | product => 3
  | sign => 2
  | atom => 1

theorem height_le (ℓ : Level) : ℓ.height ≤ 9 := by cases ℓ <;> decide

theorem height_next {ℓ : Level} (h : ℓ.fixity ≠ .closed) : ℓ.next.height + 1 = ℓ.height := by
  cases ℓ <;> first | rfl | exact absurd rfl h

/-- What holds of atoms, and of a level if it holds of the next, holds of all levels. -/
theorem tightest_induction {P : Level → Prop} (closed : P atom)
    (step : ∀ ℓ : Level, ℓ.fixity ≠ .closed → P ℓ.next → P ℓ) (ℓ : Level) : P ℓ := by
  have hsign : P sign := step sign nofun closed
  have hproduct : P product := step product nofun hsign
  have hsum : P sum := step sum nofun hproduct
  have hpower : P power := step power nofun hsum
  have hrelation : P relation := step relation nofun hpower
  have hequality : P equality := step equality nofun hrelation
  have hnegation : P negation := step negation nofun hequality
  cases ℓ with
  | logic => exact step logic nofun hnegation
  | _ => assumption

/-! ## Operators -/

/-- The level of an operator that stands between two operands. -/
def ofOperator? : Terminal → Option Level
  | .and | .or => some logic
  | .equal | .notEqual => some equality
  | .less | .greater | .lessOrEqual | .greaterOrEqual => some relation
  | .caret => some power
  | .plus | .minus => some sum
  | .star | .slash | .floorSlash | .percent => some product
  | _ => none

/-- Whether the operators of a level stand between two operands. -/
def isBinary (ℓ : Level) : Bool := ℓ.fixity matches .once | .left | .right

theorem ofOperator?_of_hasOperator {ℓ : Level} {t : Terminal} (binary : ℓ.isBinary = true)
    (h : ℓ.hasOperator t = true) : ofOperator? t = some ℓ := by
  cases ℓ <;> cases t <;> first | rfl | (cases h; done) | cases binary

theorem ne_separator_of_hasOperator {ℓ : Level} {t : Terminal} (h : ℓ.hasOperator t = true) :
    t ≠ .separator := by
  rintro rfl
  cases ℓ <;> cases h

/-- The operators of a level in a list. -/
def operatorList : Level → List Terminal
  | logic => [.and, .or]
  | negation => [.not]
  | equality => [.equal, .notEqual]
  | relation => [.less, .greater, .lessOrEqual, .greaterOrEqual]
  | power => [.caret]
  | sum | sign => [.plus, .minus]
  | product => [.star, .slash, .floorSlash, .percent]
  | atom => []

theorem mem_operatorList {ℓ : Level} {t : Terminal} :
    t ∈ ℓ.operatorList ↔ ℓ.hasOperator t = true := by
  cases ℓ <;> cases t <;> simp [operatorList, hasOperator]

/-- The operators of a level, as words. -/
def operators (ℓ : Level) : Language Terminal := (ℓ.operatorList.map single).sum

theorem mem_operators {ℓ : Level} {word : List Terminal} :
    word ∈ ℓ.operators ↔ ∃ t, ℓ.hasOperator t = true ∧ word = [t] := by
  have mem_sum (terminals : List Terminal) :
      word ∈ (terminals.map single).sum ↔ ∃ t ∈ terminals, word = [t] := by
    induction terminals with
    | nil => simp [Language.notMem_zero]
    | cons t rest ih =>
      rw [List.map_cons, List.sum_cons, Language.mem_add, ih, mem_single,
        List.exists_mem_cons_iff]
  rw [operators, mem_sum]
  exact exists_congr fun t => and_congr_left' mem_operatorList

theorem startsWith_operators (ℓ : Level) : StartsWith ℓ.hasOperator ℓ.operators := by
  intro word h
  obtain ⟨t, ht, rfl⟩ := mem_operators.1 h
  exact ⟨t, [], rfl, ht⟩

theorem single_le_operators {ℓ : Level} {t : Terminal} (h : ℓ.hasOperator t = true) :
    single t ≤ ℓ.operators := by
  rintro _ rfl
  exact mem_operators.2 ⟨t, h, rfl⟩

theorem cons_mem_single_mul_of_operators {ℓ : Level} {t : Terminal} {rest : List Terminal}
    {X : Language Terminal} (h : t :: rest ∈ ℓ.operators * X) : t :: rest ∈ single t * X := by
  obtain ⟨_, hu, v, hv, eq⟩ := Language.mem_mul.1 h
  obtain ⟨u, -, rfl⟩ := mem_operators.1 hu
  obtain ⟨rfl, rfl⟩ := List.cons.inj eq
  exact cons_mem_single_mul.2 ⟨rfl, hv⟩

/-! ## The grammar by levels -/

/-- The nonterminal of a level. -/
def nonterminal : Level → Nonterminal
  | logic => .logic
  | negation => .negation
  | equality => .equality
  | relation => .relation
  | power => .power
  | sum => .sum
  | product => .product
  | sign => .sign
  | atom => .atom

/-- The words of a level. -/
def language (ℓ : Level) : Language Terminal := Grammar.language ℓ.nonterminal

theorem language_expression : Grammar.language .expression = logic.language := by
  rw [language_eq, rule, generated_ref]
  rfl

/-- The equations of the grammar, with the operators of each level as one language. -/
theorem language_fixity (ℓ : Level) :
    match ℓ.fixity with
    | .once => ℓ.language = ℓ.next.language + ℓ.next.language * ℓ.operators * ℓ.next.language
    | .right => ℓ.language = ℓ.next.language + ℓ.next.language * ℓ.operators * ℓ.language
    | .left => ℓ.language = ℓ.next.language + ℓ.language * ℓ.operators * ℓ.next.language
    | .leading => ℓ.language = ℓ.next.language + ℓ.operators * ℓ.language
    | .closed => ℓ.language = single .number + single .trueWord + single .falseWord +
        single .identifier + single .leftParen * logic.language * single .rightParen := by
  have expanded := language_eq ℓ.nonterminal
  cases ℓ <;>
    simpa [-add_eq_sup, rule, add_assoc, language, fixity, next, nonterminal, operators,
      operatorList, language_expression] using expanded

/-- At a level without chains, one operator and one more operand may follow an operand. -/
theorem language_once {ℓ : Level} (h : ℓ.fixity = .once) :
    ℓ.language = ℓ.next.language * (1 + ℓ.operators * ℓ.next.language) := by
  have equation := language_fixity ℓ
  rw [h] at equation
  rw [equation, mul_add, mul_one, mul_assoc]

/-- At a level whose chains group to the right, an operator and a chain may follow an operand. -/
theorem language_right {ℓ : Level} (h : ℓ.fixity = .right) :
    ℓ.language = ℓ.next.language * (1 + ℓ.operators * ℓ.language) := by
  have equation := language_fixity ℓ
  rw [h] at equation
  rw [mul_add, mul_one, ← mul_assoc]
  exact equation

/-- What follows the first operand of a chain that groups to the left. -/
def tail (ℓ : Level) : Language Terminal := (ℓ.operators * ℓ.next.language)∗

theorem tail_eq (ℓ : Level) : ℓ.tail = 1 + ℓ.operators * (ℓ.next.language * ℓ.tail) := by
  rw [← mul_assoc, tail, Language.one_add_self_mul_kstar_eq_kstar]

/-- At a level whose chains group to the left, any number of operators with their operands may
follow an operand. -/
theorem language_left {ℓ : Level} (h : ℓ.fixity = .left) :
    ℓ.language = ℓ.next.language * ℓ.tail := by
  have equation := language_fixity ℓ
  rw [h] at equation
  refine eq_mul_kstar_of_eq_add_mul ?_ (by rw [← mul_assoc]; exact equation)
  exact ((startsWith_operators ℓ).mul _).nil_notMem

/-- At a level of prefixes, an operator may precede what stands at the level. -/
theorem language_leading {ℓ : Level} (h : ℓ.fixity = .leading) :
    ℓ.language = ℓ.next.language + ℓ.operators * ℓ.language := by
  have equation := language_fixity ℓ
  rw [h] at equation
  exact equation

/-- An atom is a literal, a name or an expression in parentheses. -/
theorem language_atom :
    atom.language = single .number + single .trueWord + single .falseWord +
      single .identifier + single .leftParen * (logic.language * single .rightParen) := by
  rw [← mul_assoc]
  exact language_fixity atom

theorem single_le_atom {t : Terminal}
    (h : t = .number ∨ t = .trueWord ∨ t = .falseWord ∨ t = .identifier) :
    single t ≤ atom.language := by
  intro word hw
  rw [language_atom]
  rcases h with rfl | rfl | rfl | rfl
  · exact .inl (.inl (.inl (.inl hw)))
  · exact .inl (.inl (.inl (.inr hw)))
  · exact .inl (.inl (.inr hw))
  · exact .inl (.inr hw)

/-! ## What an expression starts with -/

/-- The terminals that an expression of a level can start with. -/
def startsWith : Level → Terminal → Bool
  | _, .number | _, .trueWord | _, .falseWord | _, .identifier | _, .leftParen => true
  | atom, _ => false
  | _, .plus | _, .minus => true
  | logic, .not | negation, .not => true
  | _, _ => false

theorem startsWith_of_next {ℓ : Level} {t : Terminal} (h : ℓ.next.startsWith t = true) :
    ℓ.startsWith t = true := by
  cases ℓ <;> cases t <;> first | rfl | cases h

theorem startsWith_of_leading {ℓ : Level} {t : Terminal} (leading : ℓ.fixity = .leading)
    (h : ℓ.hasOperator t = true) : ℓ.startsWith t = true ∧ ℓ.next.startsWith t = false := by
  cases ℓ <;> cases leading <;> cases t <;> first | exact ⟨rfl, rfl⟩ | cases h

/-- **An expression starts with an atom or a prefix of its level.** -/
theorem startsWith_language (ℓ : Level) : StartsWith ℓ.startsWith ℓ.language := by
  induction ℓ using tightest_induction with
  | closed =>
    rw [language_atom]
    exact ((((StartsWith.single rfl).add (.single rfl)).add (.single rfl)).add (.single rfl)).add
      ((StartsWith.single rfl).mul _)
  | step ℓ open_ ih =>
    have first : StartsWith ℓ.startsWith ℓ.next.language := ih.mono fun _ => startsWith_of_next
    cases h : ℓ.fixity with
    | once => exact language_once h ▸ first.mul _
    | right => exact language_right h ▸ first.mul _
    | left => exact language_left h ▸ first.mul _
    | leading =>
      rw [language_leading h]
      have operator := (startsWith_operators ℓ).mono fun _ ht => (startsWith_of_leading h ht).1
      exact first.add (operator.mul _)
    | closed => exact absurd h open_

theorem number_mem_language (ℓ : Level) : [.number] ∈ ℓ.language := by
  induction ℓ using tightest_induction with
  | closed => exact single_le_atom (.inl rfl) rfl
  | step ℓ open_ ih =>
    cases h : ℓ.fixity with
    | once => exact language_once h ▸ Language.append_mem_mul ih (.inl rfl)
    | right => exact language_right h ▸ Language.append_mem_mul ih (.inl rfl)
    | left => exact language_left h ▸ Language.append_mem_mul ih (Language.nil_mem_kstar _)
    | leading => exact language_leading h ▸ .inl ih
    | closed => exact absurd h open_

/-! ## What may follow an expression -/

/-- No word goes on with an operator of a level or of a tighter one. -/
def Follows (ℓ : Level) (words : Language Terminal) : Prop :=
  ∀ t rest, t :: rest ∈ words → ∀ m, ofOperator? t = some m → ℓ.height < m.height

theorem Follows.next {ℓ : Level} {words : Language Terminal} (open_ : ℓ.fixity ≠ .closed)
    (h : ℓ.Follows words) : ℓ.next.Follows words := fun t rest hw m hm => by
  have := h t rest hw m hm
  have := height_next open_
  omega

theorem Follows.not_hasOperator {ℓ : Level} {words : Language Terminal} (h : ℓ.Follows words)
    (binary : ℓ.isBinary = true) {t : Terminal} {rest : List Terminal} (hw : t :: rest ∈ words) :
    ℓ.hasOperator t = false := by
  by_contra operator
  have := h t rest hw ℓ (ofOperator?_of_hasOperator binary (by simpa using operator))
  omega

theorem Follows.add {ℓ : Level} {X Y : Language Terminal} (hX : ℓ.Follows X)
    (hY : ℓ.Follows Y) : ℓ.Follows (X + Y) := fun t rest hw =>
  ((Language.mem_add ..).1 hw).elim (hX t rest) (hY t rest)

theorem follows_single {ℓ : Level} {t : Terminal} (h : ofOperator? t = none)
    (X : Language Terminal) : ℓ.Follows (single t * X) := fun u rest hw m hm => by
  obtain ⟨rfl, -⟩ := cons_mem_single_mul.1 hw
  rw [h] at hm
  cases hm

/-- What starts with an operator of a level may follow an operand at the next one. -/
theorem follows_next_operators {ℓ : Level} (binary : ℓ.isBinary = true) (X : Language Terminal) :
    ℓ.next.Follows (ℓ.operators * X) := fun t rest hw m hm => by
  have operator := ((startsWith_operators ℓ).mul X).test_of_mem hw
  have level := (ofOperator?_of_hasOperator binary operator).symm.trans hm
  obtain rfl : ℓ = m := Option.some.inj level
  have := height_next (ℓ := ℓ) fun closed => by simp [isBinary, closed] at binary
  omega

/-- What may follow an expression of a level may follow an operand of it, also after an
operator of the level and more. -/
theorem Follows.next_operators {ℓ : Level} {K : Language Terminal} (binary : ℓ.isBinary = true)
    (h : ℓ.Follows K) (X : Language Terminal) :
    ℓ.next.Follows ((1 + ℓ.operators * X) * K) := by
  rw [add_mul, one_mul, mul_assoc]
  exact (h.next fun closed => by simp [isBinary, closed] at binary).add
    (follows_next_operators binary _)

end Level
end SmallImp
