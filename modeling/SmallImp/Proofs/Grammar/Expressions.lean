/-
# Expressions are read as the grammar derives them

Each of the readers of expressions reads its language: `expression` the words of a level,
`operation` and `chain` what may follow the first operand of a level.  All four recurse on
fuel, so the statements come as one, `ExpressionsRead`, and hold by induction on the fuel:
sixteen for each token, and one for each level from the one asked for on.
-/
import SmallImp.Proofs.Grammar.Reading

namespace SmallImp
namespace Phrase

open Grammar

/-- What the readers of expressions promise with some fuel. -/
structure ExpressionsRead (fuel : Nat) : Prop where
  expression : ∀ (ℓ : Level) (tokens : List Token), 16 * tokens.length + ℓ.height < fuel →
    Reads ℓ.language ℓ.Follows tokens (expression fuel ℓ tokens)
  atom : ∀ tokens : List Token, 16 * tokens.length < fuel →
    Reads Level.atom.language Level.atom.Follows tokens (atom fuel tokens)
  operation : ∀ (ℓ operand : Level) (left : Expr) (tokens : List Token),
    ℓ.isBinary = true → (∀ K, ℓ.Follows K → operand.Follows K) → 16 * tokens.length ≤ fuel →
      Reads (1 + ℓ.operators * operand.language) ℓ.Follows tokens
        (operation fuel ℓ operand left tokens)
  chain : ∀ (ℓ : Level) (left : Expr) (tokens : List Token),
    ℓ.isBinary = true → 16 * tokens.length ≤ fuel →
      Reads ℓ.tail ℓ.Follows tokens (chain fuel ℓ left tokens)

/-- What may follow an operand: an operator with what comes after it, or nothing. -/
theorem Reads.operator {α : Type} {ℓ : Level} {Y : Language Terminal} {token : Token}
    {rest : List Token} {reading : Reading α} (binary : ℓ.isBinary = true)
    (operator : ℓ.hasOperator token.terminal = true) (inhabited : ∃ w, w ∈ Y)
    (h : Reads Y ℓ.Follows rest reading) :
    Reads (1 + ℓ.operators * Y) ℓ.Follows (token :: rest) reading := by
  refine branch rfl inhabited (fun w hw => ?_) (fun K hK more hw => ?_) h
  · exact .inr (mul_le_mul_left (Level.single_le_operators operator) Y hw)
  rw [add_mul, one_mul] at hw
  obtain hw | hw := hw
  · rw [hK.not_hasOperator binary hw] at operator
    cases operator
  · rw [mul_assoc] at hw
    exact (cons_mem_single_mul.1 (Level.cons_mem_single_mul_of_operators hw)).2

/-- Where no operator of a level is next, nothing follows the operand. -/
theorem Reads.no_operator {α : Type} {ℓ : Level} {Y : Language Terminal} {tokens : List Token}
    {F : Language Terminal → Prop} (phrase : α)
    (other : nextIs ℓ.hasOperator tokens = false) :
    Reads (1 + ℓ.operators * Y) F tokens (.read phrase tokens) := by
  refine (nothing phrase).widen (fun _ => .inl) fun K _ w agrees hw => ?_
  rw [add_mul] at hw
  obtain hw | hw := hw
  · exact hw
  · rw [mul_assoc] at hw
    exact absurd hw ((ℓ.startsWith_operators.mul _).notMem_of_agrees other agrees)

namespace ExpressionsRead

variable {fuel : Nat}

/-- An atom is read with one more fuel than the expressions in it. -/
theorem atom_succ (ih : ExpressionsRead fuel) (tokens : List Token)
    (enough : 16 * tokens.length < fuel + 1) :
    Reads Level.atom.language Level.atom.Follows tokens (Phrase.atom (fuel + 1) tokens) := by
  have starts := Level.atom.startsWith_language
  have inhabited : ∃ w, w ∈ Level.atom.language := ⟨_, Level.atom.number_mem_language⟩
  cases tokens with
  | nil => exact Reads.fail_of_startsWith starts inhabited rfl
  | cons token rest =>
    rw [List.length_cons] at enough
    have equation (K : Language Terminal) := congrArg (· * K) Level.language_atom
    simp only [add_mul, mul_assoc] at equation
    -- a literal or a name is the whole atom
    have leaf (phrase : Expr) (t : Terminal) (same : token.terminal = t)
        (mem : single t ≤ Level.atom.language) (simple : t ≠ .leftParen) :
        Reads Level.atom.language Level.atom.Follows (token :: rest) (.read phrase rest) := by
      refine Reads.branch same ⟨[], Language.nil_mem_one⟩ (by rwa [mul_one]) (fun K _ more hw => ?_)
        (Reads.nothing phrase)
      simp only [equation, Language.mem_add, cons_mem_single_mul, simple, false_and,
        or_false] at hw
      rw [one_mul]
      tauto
    rw [Phrase.atom]
    split
    case h_1 h => exact leaf _ _ h (Level.single_le_atom (by simp)) nofun
    case h_2 h => exact leaf _ _ h (Level.single_le_atom (by simp)) nofun
    case h_3 h => exact leaf _ _ h (Level.single_le_atom (by simp)) nofun
    case h_4 h => exact leaf _ _ h (Level.single_le_atom (by simp)) nofun
    case h_5 h =>
      refine Reads.branch h (exists_mem_mul ⟨_, Level.logic.number_mem_language⟩
        (exists_mem_single .rightParen)) (fun w hw => ?_) (fun K _ more hw => ?_) ?_
      · rw [Level.language_atom]
        exact .inr hw
      · rw [mul_assoc]
        simpa only [equation, Language.mem_add, cons_mem_single_mul, reduceCtorEq, false_and,
          true_and, false_or] using hw
      · refine (ih.expression .logic rest (by simp only [Level.height]; omega)).andThen
          (fun K _ => Level.follows_single rfl K) (exists_mem_single _) fun _ rest _ _ => ?_
        exact (Reads.expect .rightParen rest).map _
    case h_6 =>
      refine Reads.fail_of_startsWith starts inhabited ?_
      unfold nextIs Level.startsWith
      split <;> simp_all

/-- What may follow an operand is read with one more fuel than the operand it brings. -/
theorem operation_succ (ih : ExpressionsRead fuel) (ℓ operand : Level) (left : Expr)
    (tokens : List Token) (binary : ℓ.isBinary = true)
    (follow : ∀ K, ℓ.Follows K → operand.Follows K) (enough : 16 * tokens.length ≤ fuel + 1) :
    Reads (1 + ℓ.operators * operand.language) ℓ.Follows tokens
      (Phrase.operation (fuel + 1) ℓ operand left tokens) := by
  cases tokens with
  | nil => exact Reads.no_operator left rfl
  | cons token rest =>
    rw [List.length_cons] at enough
    rw [Phrase.operation]
    split
    case isTrue here =>
      have bound := operand.height_le
      refine Reads.operator binary here ⟨_, operand.number_mem_language⟩ ?_
      exact ((ih.expression operand rest (by omega)).map _).weaken follow
    case isFalse other =>
      exact Reads.no_operator left (Bool.eq_false_of_not_eq_true other)

/-- What may follow the first operand of a chain is read with one more fuel than its parts. -/
theorem chain_succ (ih : ExpressionsRead fuel) (ℓ : Level) (left : Expr) (tokens : List Token)
    (binary : ℓ.isBinary = true) (enough : 16 * tokens.length ≤ fuel + 1) :
    Reads ℓ.tail ℓ.Follows tokens (Phrase.chain (fuel + 1) ℓ left tokens) := by
  rw [Level.tail_eq]
  cases tokens with
  | nil => exact Reads.no_operator left rfl
  | cons token rest =>
    rw [List.length_cons] at enough
    rw [Phrase.chain]
    split
    case isTrue here =>
      have bound := ℓ.next.height_le
      refine Reads.operator binary here (exists_mem_mul ⟨_, ℓ.next.number_mem_language⟩
        ⟨_, Language.nil_mem_kstar _⟩) ?_
      refine (ih.expression ℓ.next rest (by omega)).andThen (fun K hK => ?_)
        ⟨_, Language.nil_mem_kstar _⟩ fun right rest' _ shorter => ?_
      · exact ℓ.tail_eq ▸ hK.next_operators binary _
      · exact ih.chain ℓ _ rest' binary (by omega)
    case isFalse other =>
      exact Reads.no_operator left (Bool.eq_false_of_not_eq_true other)

/-- An expression is read with one more fuel than its parts. -/
theorem expression_succ (ih : ExpressionsRead fuel) (ℓ : Level) (tokens : List Token)
    (enough : 16 * tokens.length + ℓ.height < fuel + 1) :
    Reads ℓ.language ℓ.Follows tokens (Phrase.expression (fuel + 1) ℓ tokens) := by
  -- the first operand stands at the next level, and an operand at that level ends before it
  have first (open_ : ℓ.fixity ≠ .closed) :
      Reads ℓ.next.language ℓ.next.Follows tokens (Phrase.expression fuel ℓ.next tokens) := by
    have := Level.height_next open_
    exact ih.expression ℓ.next tokens (by omega)
  unfold Phrase.expression
  cases h : ℓ.fixity with
  | closed =>
    obtain rfl : ℓ = .atom := by cases ℓ <;> first | rfl | cases h
    exact ih.atom tokens (by simp only [Level.height] at enough; omega)
  | leading =>
    have next := first (by simp [h])
    have follow (K : Language Terminal) (hK : ℓ.Follows K) : ℓ.next.Follows K :=
      hK.next (by simp [h])
    -- no expression of the next level starts with a prefix of this one
    have only (other : nextIs ℓ.hasOperator tokens = false) :
        Reads ℓ.language ℓ.Follows tokens (Phrase.expression fuel ℓ.next tokens) := by
      refine (next.weaken follow).widen (fun w hw => ?_) fun K _ w agrees hw => ?_
      · rw [Level.language_leading h]
        exact .inl hw
      rw [Level.language_leading h, add_mul] at hw
      obtain hw | hw := hw
      · exact hw
      · rw [mul_assoc] at hw
        exact absurd hw ((ℓ.startsWith_operators.mul _).notMem_of_agrees other agrees)
    cases tokens with
    | nil => exact only rfl
    | cons token rest =>
      rw [List.length_cons] at enough
      simp only
      split
      case isTrue here =>
        refine Reads.branch rfl ⟨_, ℓ.number_mem_language⟩ (fun w hw => ?_)
          (fun K _ more hw => ?_) ((ih.expression ℓ rest (by omega)).map (unaryExpr token))
        · rw [Level.language_leading h]
          exact .inr (mul_le_mul_left (Level.single_le_operators here) _ hw)
        rw [Level.language_leading h, add_mul] at hw
        obtain hw | hw := hw
        · have start := (ℓ.next.startsWith_language.mul K).test_of_mem hw
          rw [(Level.startsWith_of_leading h here).2] at start
          cases start
        · rw [mul_assoc] at hw
          exact (cons_mem_single_mul.1 (Level.cons_mem_single_mul_of_operators hw)).2
      case isFalse other =>
        exact only (Bool.eq_false_of_not_eq_true other)
  | left =>
    have binary : ℓ.isBinary = true := by rw [Level.isBinary, h]
    rw [Level.language_left h]
    refine (first (by simp [h])).andThen (fun K hK => ?_) ⟨_, Language.nil_mem_kstar _⟩
      fun left rest _ shorter => ih.chain ℓ left rest binary (by omega)
    exact ℓ.tail_eq ▸ hK.next_operators binary _
  | once =>
    have binary : ℓ.isBinary = true := by rw [Level.isBinary, h]
    rw [Level.language_once h]
    refine (first (by simp [h])).andThen (fun K hK => hK.next_operators binary _) ⟨[], .inl rfl⟩
      fun left rest _ shorter => ih.operation ℓ ℓ.next left rest binary (fun K hK => ?_) (by omega)
    exact hK.next (by simp [h])
  | right =>
    have binary : ℓ.isBinary = true := by rw [Level.isBinary, h]
    rw [Level.language_right h]
    refine (first (by simp [h])).andThen (fun K hK => hK.next_operators binary _) ⟨[], .inl rfl⟩
      fun left rest _ shorter => ih.operation ℓ ℓ left rest binary (fun K hK => hK) (by omega)

end ExpressionsRead

/-- **The readers of expressions keep their promises with any fuel.** -/
theorem expressionsRead (fuel : Nat) : ExpressionsRead fuel := by
  induction fuel with
  | zero =>
    refine ⟨fun _ _ h => absurd h (by omega), fun _ h => absurd h (by omega), ?_, ?_⟩
    · intro ℓ operand left tokens _ _ enough
      obtain rfl : tokens = [] := List.length_eq_zero_iff.1 (by omega)
      exact Reads.no_operator left rfl
    · intro ℓ left tokens _ enough
      obtain rfl : tokens = [] := List.length_eq_zero_iff.1 (by omega)
      exact ℓ.tail_eq ▸ Reads.no_operator left rfl
  | succ fuel ih =>
    exact ⟨ih.expression_succ, ih.atom_succ, ih.operation_succ, ih.chain_succ⟩

end Phrase
end SmallImp
