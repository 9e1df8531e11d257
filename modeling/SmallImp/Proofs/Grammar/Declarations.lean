/-
# Declarations are read as the grammar derives them

A declaration has its name and its type in either order.  Its last part is an expression, so its
reader is right before each language that an expression may stand before.
-/
import SmallImp.Proofs.Grammar.Expressions
import SmallImp.Proofs.Grammar.Productions

namespace SmallImp

open Grammar

namespace Phrase

theorem typeName_reads {F : Language Terminal → Prop} (tokens : List Token) :
    Reads (language .type) F tokens (typeName tokens) := by
  have starts : StartsWith (fun t => t == .numWord || t == .boolWord) (language .type) := by
    rw [language_type]
    exact (StartsWith.single rfl).add (.single rfl)
  cases tokens with
  | nil => exact Reads.fail_of_startsWith starts exists_mem_type rfl
  | cons token rest =>
    have only (t : Terminal) (K : Language Terminal) (more : List Terminal)
        (hw : t :: more ∈ language .type * K) : more ∈ 1 * K := by
      rw [language_type, add_mul] at hw
      rw [one_mul]
      exact hw.elim (fun hw => (cons_mem_single_mul.1 hw).2) fun hw =>
        (cons_mem_single_mul.1 hw).2
    rw [typeName]
    split
    case h_1 h =>
      refine Reads.branch h ⟨[], Language.nil_mem_one⟩ ?_ (fun K _ => only _ K) (.nothing _)
      rw [language_type, mul_one]
      exact fun w => .inl
    case h_2 h =>
      refine Reads.branch h ⟨[], Language.nil_mem_one⟩ ?_ (fun K _ => only _ K) (.nothing _)
      rw [language_type, mul_one]
      exact fun w => .inr
    case h_3 num bool =>
      exact Reads.fail_of_startsWith starts exists_mem_type
        (by simpa [nextIs] using ⟨num, bool⟩)

theorem fields_reads {F : Language Terminal → Prop} (tokens : List Token) :
    Reads fieldWords F tokens (fields tokens) := by
  have starts : StartsWith (fun t => t == .identifier || t == .colon) fieldWords :=
    ((StartsWith.single rfl).mul _).add ((StartsWith.single rfl).mul _)
  cases tokens with
  | nil => exact Reads.fail_of_startsWith starts exists_mem_fieldWords rfl
  | cons token rest =>
    rw [fields]
    split
    case h_1 h =>
      refine Reads.branch h (exists_mem_mul (exists_mem_single .colon) exists_mem_type)
        (fun w => .inl) (fun K _ more hw => ?_) ?_
      · rw [fieldWords, add_mul] at hw
        simpa only [Language.mem_add, cons_mem_single_mul_mul, reduceCtorEq, true_and,
          false_and, or_false] using hw
      · exact Reads.expect_andThen exists_mem_type fun _ rest _ => (typeName_reads rest).map _
    case h_2 h =>
      refine Reads.branch h (exists_mem_mul exists_mem_type (exists_mem_single .identifier))
        (fun w => .inr) (fun K _ more hw => ?_) ?_
      · rw [fieldWords, add_mul] at hw
        simpa only [Language.mem_add, cons_mem_single_mul_mul, reduceCtorEq, true_and,
          false_and, false_or] using hw
      · exact (typeName_reads (F := fun _ => True) rest).andThen (fun _ _ => trivial)
          (exists_mem_single .identifier) fun _ rest _ _ => (Reads.expect .identifier rest).map _
    case h_3 identifier colon =>
      exact Reads.fail_of_startsWith starts exists_mem_fieldWords
        (by simpa [nextIs] using ⟨identifier, colon⟩)

theorem declaration_reads {fuel : Nat} (tokens : List Token)
    (enough : 16 * tokens.length < fuel) :
    Reads (language .declaration) Level.logic.Follows tokens (declaration fuel tokens) := by
  cases tokens with
  | nil => exact Reads.fail_of_startsWith startsWith_declaration exists_mem_declaration rfl
  | cons token rest =>
    rw [List.length_cons] at enough
    have inhabited := exists_mem_mul (exists_mem_single .assign) exists_mem_logic
    rw [declaration]
    split
    case isTrue here =>
      have word : token.terminal = .letWord ∨ token.terminal = .constWord := by
        revert here
        cases token.terminal <;> simp [startsDeclaration]
      rw [language_declaration]
      refine Reads.branch rfl (exists_mem_mul exists_mem_fieldWords inhabited) ?_
        (fun K _ more hw => ?_) ?_
      · rw [add_mul]
        rcases word with word | word <;> rw [word]
        · exact fun w => .inl
        · exact fun w => .inr
      · rw [add_mul, add_mul] at hw
        exact hw.elim (fun hw => (cons_mem_single_mul_mul.1 hw).2) fun hw =>
          (cons_mem_single_mul_mul.1 hw).2
      refine (fields_reads (F := fun _ => True) rest).andThen (fun _ _ => trivial) inhabited ?_
      intro ⟨nameFirst, name, type⟩ afterFields _ shorter
      refine Reads.expect_andThen exists_mem_logic fun _ rest shorter' => ?_
      have value := (expressionsRead fuel).expression .logic rest
        (by simp only [Level.height]; omega)
      exact value.map _
    case isFalse other =>
      exact Reads.fail_of_startsWith startsWith_declaration exists_mem_declaration
        (Bool.eq_false_of_not_eq_true other)

/-- The declaration at the head of a `for` loop is read before the comma. -/
theorem optionalDeclaration_reads {fuel : Nat} (tokens : List Token)
    (enough : 16 * tokens.length < fuel) :
    Reads (1 + language .declaration) (fun K => StartsWith (· == .comma) K) tokens
      (optionalDeclaration fuel tokens) := by
  have follow (K : Language Terminal) (hK : StartsWith (· == .comma) K) :
      Level.logic.Follows K := fun t rest hw m hm => by
    obtain rfl : t = .comma := by simpa using hK.test_of_mem hw
    cases hm
  rw [optionalDeclaration]
  split
  case isTrue here =>
    refine (((declaration_reads tokens enough).map _).weaken follow).widen (fun w => .inr)
      fun K hK w agrees hw => ?_
    rw [add_mul, one_mul] at hw
    refine hw.resolve_left (hK.notMem_of_agrees ?_ agrees)
    exact nextIs_eq_false_of here fun t ht => by
      revert ht
      cases t <;> simp [startsDeclaration]
  case isFalse other =>
    refine (Reads.nothing _).widen (fun w => .inl) fun K _ w agrees hw => ?_
    rw [add_mul] at hw
    exact hw.resolve_right ((startsWith_declaration.mul K).notMem_of_agrees
      (Bool.eq_false_of_not_eq_true other) agrees)

end Phrase
end SmallImp
