/-
# Commands are read as the grammar derives them

The readers of commands and lists of items read their languages.  After a command stands a
separator, a closing bracket or an `else`, and the readers of commands are right before each
language that is `Closing`.  An `else` is the point of it: the grammar lets an `else` go to any
open `if`, and a reader always gives it to the nearest one.  Nothing is lost by that, since
where an `else` with its body may stand before `K`, the body may stand there too, for an outer
`if` that has had its `else` taken away (`Closing.elseWords`).
-/
import SmallImp.Proofs.Grammar.Declarations

namespace SmallImp

open Grammar

namespace Phrase

/-! ## What stands after commands -/

/-- The terminals that stand after commands. -/
def closes : Terminal → Bool
  | .separator | .rightBrace | .rightParen | .elseWord => true
  | _ => false

/-- What may stand after a command.  Where an `else` and a body may, a body may. -/
structure Closing (K : Language Terminal) : Prop where
  first : ∀ t rest, t :: rest ∈ K → closes t = true
  otherwise : ∀ rest, .elseWord :: rest ∈ K → rest ∈ language .body * K

/-- What may stand after the last item of a list: a closing brace, or nothing. -/
def Ending (K : Language Terminal) : Prop := ∀ t rest, t :: rest ∈ K → t = .rightBrace

namespace Closing

variable {K : Language Terminal}

theorem of_first (h : ∀ t rest, t :: rest ∈ K → closes t = true ∧ t ≠ .elseWord) : Closing K :=
  ⟨fun t rest hw => (h t rest hw).1, fun rest hw => absurd rfl (h _ rest hw).2⟩

theorem of_single {t : Terminal} (h : closes t = true ∧ t ≠ .elseWord) (X : Language Terminal) :
    Closing (single t * X) := of_first fun _ _ hw => (cons_mem_single_mul.1 hw).1 ▸ h

/-- **An `else` that may be left out keeps a language closing.** -/
theorem elseWords (h : Closing K) : Closing (elseWords * K) := by
  rw [Grammar.elseWords, add_mul, one_mul, mul_assoc]
  constructor
  · rintro t rest (hw | hw)
    · exact h.first t rest hw
    · rw [(cons_mem_single_mul.1 hw).1]
      rfl
  · intro rest hw
    -- either way the body stands before `K`
    have body : rest ∈ language .body * K :=
      hw.elim (h.otherwise rest) fun hw => (cons_mem_single_mul.1 hw).2
    have more : K ≤ K + single .elseWord * (language .body * K) := fun w => .inl
    exact mul_le_mul_right more (language .body) body

theorem follows (h : Closing K) (ℓ : Level) : ℓ.Follows K := fun t rest hw m hm => by
  have := h.first t rest hw
  revert this hm
  cases t <;> simp [closes, Level.ofOperator?]

/-- What may follow the items of a list may follow the last of them, and so may more items. -/
theorem of_ending (h : Ending K) :
    Closing ((1 + single .separator * language .sequence) * K) := by
  rw [add_mul, one_mul, mul_assoc]
  refine of_first fun t rest hw => ?_
  rcases hw with hw | hw
  · rw [h t rest hw]
    exact ⟨rfl, nofun⟩
  · rw [(cons_mem_single_mul.1 hw).1]
    exact ⟨rfl, nofun⟩

end Closing

/-- What a body, and what follows it, can start with. -/
def continuesBody (t : Terminal) : Bool := startsCommand t || t == .leftBrace || closes t

/-- Languages of bodies, with more after them or not. -/
def Bodily (Y : Language Terminal) : Prop :=
  ∀ K, Closing K → ∀ t rest, t :: rest ∈ Y * K → continuesBody t = true

theorem bodily_body : Bodily (language .body) := by
  intro K hK t rest hw
  rw [language_body, add_mul, add_mul, one_mul] at hw
  rcases hw with (hw | hw) | hw
  · simp [continuesBody, hK.first t rest hw]
  · simp [continuesBody, (startsWith_command.mul K).test_of_mem hw]
  · simp [continuesBody, (cons_mem_single_mul_mul.1 hw).1]

theorem bodily_body_elseWords : Bodily (language .body * elseWords) := fun K hK t rest hw => by
  rw [mul_assoc] at hw
  exact bodily_body _ hK.elseWords t rest hw

namespace Bodily

variable {Y K : Language Terminal}

/-- A condition ends before `then` or `do` and a body. -/
theorem follows (h : Bodily Y) (hK : Closing K) {word : Terminal}
    (hword : word = .thenWord ∨ word = .doWord) :
    Level.logic.Follows ((1 + single word) * Y * K) := fun t rest hw m hm => by
  rw [add_mul, one_mul, add_mul] at hw
  have none : Level.ofOperator? t = none := by
    rcases hw with hw | hw
    · have := h K hK t rest hw
      revert this
      cases t <;> simp [continuesBody, startsCommand, closes, Level.ofOperator?]
    · rw [(cons_mem_single_mul_mul.1 hw).1]
      rcases hword with rfl | rfl <;> rfl
  rw [none] at hm
  cases hm

/-- No body starts with `then` or `do`. -/
theorem excluded (h : Bodily Y) {word : Terminal} (hword : word = .thenWord ∨ word = .doWord) :
    ∀ K, Closing K → ∀ rest, word :: rest ∉ Y * K := fun K hK rest hw => by
  have := h K hK _ rest hw
  rcases hword with rfl | rfl <;> cases this

end Bodily

/-! ## Commands and items -/

/-- What the readers of commands promise with some fuel. -/
structure CommandsRead (fuel : Nat) : Prop where
  command : ∀ tokens : List Token, 16 * tokens.length < fuel →
    Reads (language .command) Closing tokens (command fuel tokens)
  optionalCommand : ∀ tokens : List Token, 16 * tokens.length + 1 < fuel →
    Reads (1 + language .command) Closing tokens (optionalCommand fuel tokens)
  body : ∀ tokens : List Token, 16 * tokens.length + 2 < fuel →
    Reads (language .body) Closing tokens (body fuel tokens)
  optionalItems : ∀ tokens : List Token, 16 * tokens.length + 2 < fuel →
    Reads (1 + language .sequence) (StartsWith (· == .rightBrace)) tokens
      (optionalItems fuel tokens)
  items : ∀ tokens : List Token, 16 * tokens.length + 1 < fuel →
    Reads (language .sequence) Ending tokens (items fuel tokens)
  moreItems : ∀ tokens : List Token, 16 * tokens.length < fuel →
    Reads (1 + single .separator * language .sequence) Ending tokens (moreItems fuel tokens)

/-- The tokens after one that may be left out are no more than all. -/
theorem length_optional_le (t : Terminal) (tokens : List Token) :
    (optional t tokens).2.length ≤ tokens.length := by
  cases tokens with
  | nil => exact Nat.le_refl _
  | cons token rest =>
    rw [optional]
    split <;> simp

namespace CommandsRead

variable {fuel : Nat}

/-- **An `else` goes to the command that ends before it.** -/
theorem else_reads {α : Type} (ih : CommandsRead fuel) (tokens : List Token)
    (enough : 16 * tokens.length + 2 < fuel) (first : α) (second : Block → Body → α) :
    Reads elseWords Closing tokens
      (match optional .elseWord tokens with
      | (some elseAt, rest) => (Phrase.body fuel rest).map (second elseAt)
      | (none, rest) => .read first rest) := by
  -- where no `else` is next, the command ends
  have none (other : nextIs (· == .elseWord) tokens = false) :
      Reads elseWords Closing tokens (.read first tokens) := by
    refine (Reads.nothing first).widen (fun w => .inl) fun K _ w agrees hw => ?_
    rw [elseWords, add_mul, mul_assoc] at hw
    have starts : StartsWith (· == .elseWord) (single .elseWord * (language .body * K)) :=
      (StartsWith.single rfl).mul _
    exact hw.resolve_right (starts.notMem_of_agrees other agrees)
  cases tokens with
  | nil => exact none rfl
  | cons token rest =>
    rw [List.length_cons] at enough
    rw [optional]
    by_cases here : token.terminal = .elseWord
    · rw [if_pos here]
      refine Reads.branch here ⟨_, nil_mem_body⟩ (fun w => .inr) (fun K hK more hw => ?_)
        ((ih.body rest (by omega)).map (second token.block))
      rw [elseWords, add_mul, one_mul] at hw
      exact hw.elim (hK.otherwise more) fun hw => (cons_mem_single_mul_mul.1 hw).2
    · rw [if_neg here]
      exact none (by simpa [nextIs] using here)

/-- What follows the word of an `if`: a condition, a body and perhaps an `else`. -/
theorem if_reads {α : Type} (ih : CommandsRead fuel) (tokens : List Token)
    (enough : 16 * tokens.length + 9 < fuel) (first : Expr → Option Block → Body → α)
    (second : Expr → Option Block → Body → Block → Body → α) :
    Reads (Level.logic.language * ((1 + single .thenWord) * (language .body * elseWords))) Closing
      tokens ((Phrase.expression fuel .logic tokens).andThen fun condition rest =>
        (Phrase.body fuel (optional .thenWord rest).2).andThen fun inner after =>
        match optional .elseWord after with
        | (some elseAt, after) =>
          (Phrase.body fuel after).map (second condition (optional .thenWord rest).1 inner elseAt)
        | (none, after) => .read (first condition (optional .thenWord rest).1 inner) after) := by
  have inhabited : ∃ w, w ∈ language .body * elseWords :=
    exists_mem_mul ⟨_, nil_mem_body⟩ ⟨_, nil_mem_elseWords⟩
  refine ((expressionsRead fuel).expression .logic tokens
    (by simp only [Level.height]; omega)).andThen
    (fun K hK => bodily_body_elseWords.follows hK (.inl rfl))
    (exists_mem_mul ⟨_, nil_mem_one_add _⟩ inhabited) fun condition rest _ shorter => ?_
  refine Reads.optional inhabited (bodily_body_elseWords.excluded (.inl rfl)) ?_
  have bound := length_optional_le .thenWord rest
  refine (ih.body _ (by omega)).andThen (fun K hK => hK.elseWords) ⟨_, nil_mem_elseWords⟩
    fun inner after _ shorter' => ?_
  exact ih.else_reads after (by omega) _ _

/-- The body of a loop, after `do` or not. -/
theorem do_reads {α : Type} (ih : CommandsRead fuel) (tokens : List Token)
    (enough : 16 * tokens.length + 2 < fuel) (make : Body → α) :
    Reads ((1 + single .doWord) * language .body) Closing tokens
      ((Phrase.body fuel (optional .doWord tokens).2).map make) := by
  have bound := length_optional_le .doWord tokens
  exact Reads.optional ⟨_, nil_mem_body⟩ (bodily_body.excluded (.inr rfl))
    ((ih.body _ (by omega)).map make)

/-- What follows the word of a `while`: a condition and a body. -/
theorem while_reads {α : Type} (ih : CommandsRead fuel) (tokens : List Token)
    (enough : 16 * tokens.length + 9 < fuel) (make : Expr → Option Block → Body → α) :
    Reads (Level.logic.language * ((1 + single .doWord) * language .body)) Closing tokens
      ((Phrase.expression fuel .logic tokens).andThen fun condition rest =>
        (Phrase.body fuel (optional .doWord rest).2).map
          (make condition (optional .doWord rest).1)) := by
  refine ((expressionsRead fuel).expression .logic tokens
    (by simp only [Level.height]; omega)).andThen
    (fun K hK => bodily_body.follows hK (.inr rfl)) exists_mem_do fun condition rest _ shorter => ?_
  exact ih.do_reads rest (by omega) _

/-- What follows the word of a `for`. -/
theorem for_reads {α : Type} (ih : CommandsRead fuel) (tokens : List Token)
    (enough : 16 * tokens.length + 9 < fuel)
    (make : Option Declaration → Expr → OptionalCommand → Block → Option Block → Body → α) :
    Reads forWords Closing tokens
      ((Phrase.expect .leftParen tokens).andThen fun _ rest =>
      (Phrase.optionalDeclaration fuel rest).andThen fun initial rest =>
      (Phrase.expect .comma rest).andThen fun _ rest =>
      (Phrase.expression fuel .logic rest).andThen fun condition rest =>
      (Phrase.expect .comma rest).andThen fun _ rest =>
      (Phrase.optionalCommand fuel rest).andThen fun step rest =>
      (Phrase.expect .rightParen rest).andThen fun closing rest =>
      (Phrase.body fuel (optional .doWord rest).2).map
        (make initial condition step closing.block (optional .doWord rest).1)) := by
  have afterStep := exists_mem_mul (exists_mem_single .rightParen) exists_mem_do
  have afterCondition := exists_mem_mul (exists_mem_single .comma)
    (exists_mem_mul ⟨_, nil_mem_one_add (language .command)⟩ afterStep)
  have afterInitial := exists_mem_mul (exists_mem_single .comma)
    (exists_mem_mul exists_mem_logic afterCondition)
  refine Reads.expect_andThen (exists_mem_mul ⟨_, nil_mem_one_add _⟩ afterInitial)
    fun _ rest₁ bound₁ => ?_
  refine (optionalDeclaration_reads rest₁ (by omega)).andThen (fun K _ => ?_) afterInitial
    fun initial rest₂ _ bound₂ => ?_
  · exact ((StartsWith.single rfl).mul _).mul _
  refine Reads.expect_andThen (exists_mem_mul exists_mem_logic afterCondition)
    fun _ rest₃ bound₃ => ?_
  refine ((expressionsRead fuel).expression .logic rest₃
    (by simp only [Level.height]; omega)).andThen (fun K _ => ?_) afterCondition
    fun condition rest₄ _ bound₄ => ?_
  · rw [mul_assoc]
    exact Level.follows_single rfl _
  refine Reads.expect_andThen (exists_mem_mul ⟨_, nil_mem_one_add _⟩ afterStep)
    fun _ rest₅ bound₅ => ?_
  refine (ih.optionalCommand rest₅ (by omega)).andThen (fun K _ => ?_) afterStep
    fun step rest₆ _ bound₆ => ?_
  · rw [mul_assoc]
    exact Closing.of_single (t := .rightParen) ⟨rfl, by decide⟩ _
  exact Reads.expect_andThen exists_mem_do fun closing rest₇ bound₇ =>
    ih.do_reads rest₇ (by omega) _

/-- A command is read with one more fuel than its parts. -/
theorem command_succ (ih : CommandsRead fuel) (tokens : List Token)
    (enough : 16 * tokens.length < fuel + 1) :
    Reads (language .command) Closing tokens (Phrase.command (fuel + 1) tokens) := by
  cases tokens with
  | nil => exact Reads.fail_of_startsWith startsWith_command exists_mem_command rfl
  | cons token rest =>
    rw [List.length_cons] at enough
    have expression := (expressionsRead fuel).expression .logic
    simp only [Level.height] at expression
    -- after its first word a command is settled: no other command starts with it
    have settled (t : Terminal) (K : Language Terminal) (more : List Terminal)
        (hw : t :: more ∈ language .command * K) :
        t = .identifier ∧ more ∈ single .assign * Level.logic.language * K ∨
        t = .ifWord ∧ more ∈ Level.logic.language *
          ((1 + single .thenWord) * (language .body * elseWords)) * K ∨
        t = .whileWord ∧
          more ∈ Level.logic.language * ((1 + single .doWord) * language .body) * K ∨
        t = .printWord ∧ more ∈ Level.logic.language * K ∨
        t = .forWord ∧ more ∈ forWords * K := by
      simpa only [language_command, add_mul, Language.mem_add, cons_mem_single_mul_mul,
        or_assoc] using hw
    rw [Phrase.command]
    split
    case h_1 h =>
      refine Reads.branch h (exists_mem_mul (exists_mem_single .assign) exists_mem_logic) ?_
        (fun K _ more hw => by simpa using settled _ K more hw) ?_
      · rw [language_command]
        exact fun w hw => .inl (.inl (.inl (.inl hw)))
      exact Reads.expect_andThen exists_mem_logic fun _ rest _ =>
        ((expression rest (by omega)).weaken fun K hK => hK.follows _).map _
    case h_2 h =>
      refine Reads.branch h exists_mem_logic ?_
        (fun K _ more hw => by simpa using settled _ K more hw) ?_
      · rw [language_command]
        exact fun w hw => .inl (.inr hw)
      exact ((expression rest (by omega)).weaken fun K hK => hK.follows _).map _
    case h_3 h =>
      refine Reads.branch h (exists_mem_mul exists_mem_logic (exists_mem_mul
          ⟨_, nil_mem_one_add _⟩ (exists_mem_mul ⟨_, nil_mem_body⟩ ⟨_, nil_mem_elseWords⟩))) ?_
        (fun K _ more hw => by simpa using settled _ K more hw) ?_
      · rw [language_command]
        exact fun w hw => .inl (.inl (.inl (.inr hw)))
      exact ih.if_reads rest (by omega) (fun c at_ b => Command.ifThen token.block c at_ b)
        fun c at_ b elseAt b' => Command.ifElse token.block c at_ b elseAt b'
    case h_4 h =>
      refine Reads.branch h (exists_mem_mul exists_mem_logic exists_mem_do) ?_
        (fun K _ more hw => by simpa using settled _ K more hw) ?_
      · rw [language_command]
        exact fun w hw => .inl (.inl (.inr hw))
      exact ih.while_reads rest (by omega) fun c at_ b => Command.whileLoop token.block c at_ b
    case h_5 h =>
      refine Reads.branch h exists_mem_forWords ?_
        (fun K _ more hw => by simpa using settled _ K more hw) ?_
      · rw [language_command]
        exact fun w hw => .inr hw
      exact ih.for_reads rest (by omega) (Command.forLoop token.block)
    case h_6 identifier print if_ while_ for_ =>
      refine Reads.fail_of_startsWith startsWith_command exists_mem_command ?_
      unfold nextIs startsCommand
      split <;> simp_all

/-- A command that may be left out is read with one more fuel than a command. -/
theorem optionalCommand_succ (ih : CommandsRead fuel) (tokens : List Token)
    (enough : 16 * tokens.length + 1 < fuel + 1) :
    Reads (1 + language .command) Closing tokens (Phrase.optionalCommand (fuel + 1) tokens) := by
  rw [Phrase.optionalCommand]
  split
  case isTrue here =>
    refine ((ih.command tokens (by omega)).map _).widen (fun w => .inr) fun K hK w agrees hw => ?_
    rw [add_mul, one_mul] at hw
    refine hw.resolve_left fun hw => ?_
    cases tokens with
    | nil => cases here
    | cons token rest =>
      obtain ⟨more, rfl⟩ := agrees.exists_eq_cons
      have closing := hK.first _ _ hw
      rw [nextIs] at here
      revert here closing
      cases token.terminal <;> simp [startsCommand, closes]
  case isFalse other =>
    refine (Reads.nothing _).widen (fun w => .inl) fun K _ w agrees hw => ?_
    rw [add_mul] at hw
    exact hw.resolve_right ((startsWith_command.mul K).notMem_of_agrees
      (Bool.eq_false_of_not_eq_true other) agrees)

/-- A body is read with one more fuel than the command or the items in it. -/
theorem body_succ (ih : CommandsRead fuel) (tokens : List Token)
    (enough : 16 * tokens.length + 2 < fuel + 1) :
    Reads (language .body) Closing tokens (Phrase.body (fuel + 1) tokens) := by
  have braces : StartsWith (· == .leftBrace)
      (single .leftBrace * ((1 + language .sequence) * single .rightBrace)) :=
    (StartsWith.single rfl).mul _
  -- without a brace the body is one command, or nothing
  have bare (other : nextIs (· == .leftBrace) tokens = false) :
      Reads (language .body) Closing tokens ((Phrase.optionalCommand fuel tokens).map Body.bare) := by
    rw [language_body]
    refine ((ih.optionalCommand tokens (by omega)).map _).widen (fun w => .inl)
      fun K _ w agrees hw => ?_
    rw [add_mul (1 + language .command)] at hw
    exact hw.resolve_right ((braces.mul K).notMem_of_agrees other agrees)
  rw [Phrase.body]
  cases tokens with
  | nil => exact bare rfl
  | cons token rest =>
    rw [List.length_cons] at enough
    rw [optional]
    by_cases here : token.terminal = .leftBrace
    · rw [if_pos here, language_body]
      refine Reads.branch here (exists_mem_mul ⟨_, nil_mem_one_add _⟩
        (exists_mem_single .rightBrace)) (fun w => .inr) (fun K hK more hw => ?_) ?_
      · rw [add_mul, add_mul, one_mul] at hw
        rcases hw with (hw | hw) | hw
        · cases hK.first _ _ hw
        · cases (startsWith_command.mul K).test_of_mem hw
        · exact (cons_mem_single_mul_mul.1 hw).2
      refine (ih.optionalItems rest (by omega)).andThen (fun K _ => ?_) (exists_mem_single _)
        fun inner rest _ _ => (Reads.expect .rightBrace rest).map _
      exact (StartsWith.single rfl).mul K
    · rw [if_neg here]
      exact bare (by simpa [nextIs] using here)

/-- The items in braces are read with one more fuel than a list of items. -/
theorem optionalItems_succ (ih : CommandsRead fuel) (tokens : List Token)
    (enough : 16 * tokens.length + 2 < fuel + 1) :
    Reads (1 + language .sequence) (StartsWith (· == .rightBrace)) tokens
      (Phrase.optionalItems (fuel + 1) tokens) := by
  rw [Phrase.optionalItems]
  split
  case isTrue here =>
    refine (Reads.nothing _).widen (fun w => .inl) fun K _ w agrees hw => ?_
    rw [add_mul] at hw
    refine hw.resolve_right ((startsWith_sequence.mul K).notMem_of_agrees ?_ agrees)
    exact nextIs_eq_false_of here fun t ht => by
      obtain rfl : t = .rightBrace := by simpa using ht
      rfl
  case isFalse other =>
    have sequence := (ih.items tokens (by omega)).weaken (G := StartsWith (· == .rightBrace))
      fun K hK t rest hw => by simpa using hK.test_of_mem hw
    refine sequence.widen (fun w => .inr) fun K hK w agrees hw => ?_
    rw [add_mul, one_mul] at hw
    exact hw.resolve_left (hK.notMem_of_agrees (Bool.eq_false_of_not_eq_true other) agrees)

/-- A list of items is read with one more fuel than its parts. -/
theorem items_succ (ih : CommandsRead fuel) (tokens : List Token)
    (enough : 16 * tokens.length + 1 < fuel + 1) :
    Reads (language .sequence) Ending tokens (Phrase.items (fuel + 1) tokens) := by
  have more := nil_mem_one_add (single .separator * language .sequence)
  have apart : ∀ t, startsDeclaration t = true → startsCommand t = false := fun t ht => by
    revert ht
    cases t <;> simp [startsDeclaration, startsCommand]
  rw [Phrase.items, language_sequence]
  split
  case isTrue here =>
    have first : Reads (language .declaration + language .command) Closing tokens
        (Phrase.declaration fuel tokens) := by
      refine ((declaration_reads tokens (by omega)).weaken fun K hK => hK.follows _).widen
        (fun w => .inl) fun K _ w agrees hw => ?_
      rw [add_mul] at hw
      exact hw.resolve_right ((startsWith_command.mul K).notMem_of_agrees
        (nextIs_eq_false_of here apart) agrees)
    exact first.andThen (fun K hK => Closing.of_ending hK) ⟨_, more⟩ fun _ rest _ shorter =>
      (ih.moreItems rest (by omega)).map _
  case isFalse other =>
    have first : Reads (language .declaration + language .command) Closing tokens
        (Phrase.command fuel tokens) := by
      refine (ih.command tokens (by omega)).widen (fun w => .inr) fun K _ w agrees hw => ?_
      rw [add_mul] at hw
      exact hw.resolve_left ((startsWith_declaration.mul K).notMem_of_agrees
        (Bool.eq_false_of_not_eq_true other) agrees)
    exact first.andThen (fun K hK => Closing.of_ending hK) ⟨_, more⟩ fun _ rest _ shorter =>
      (ih.moreItems rest (by omega)).map _

/-- The items after the first are read with one more fuel than a list of items. -/
theorem moreItems_succ (ih : CommandsRead fuel) (tokens : List Token)
    (enough : 16 * tokens.length < fuel + 1) :
    Reads (1 + single .separator * language .sequence) Ending tokens
      (Phrase.moreItems (fuel + 1) tokens) := by
  have last (other : nextIs (· == .separator) tokens = false) :
      Reads (1 + single .separator * language .sequence) Ending tokens (.read Items.nil tokens) := by
    refine (Reads.nothing _).widen (fun w => .inl) fun K _ w agrees hw => ?_
    rw [add_mul, mul_assoc] at hw
    have starts : StartsWith (· == .separator) (single .separator * (language .sequence * K)) :=
      (StartsWith.single rfl).mul _
    exact hw.resolve_right (starts.notMem_of_agrees other agrees)
  rw [Phrase.moreItems]
  cases tokens with
  | nil => exact last rfl
  | cons token rest =>
    rw [List.length_cons] at enough
    rw [optional]
    by_cases here : token.terminal = .separator
    · rw [if_pos here]
      refine Reads.branch here exists_mem_sequence (fun w => .inr) (fun K hK more hw => ?_)
        (ih.items rest (by omega))
      rw [add_mul, one_mul] at hw
      rcases hw with hw | hw
      · cases hK _ _ hw
      · exact (cons_mem_single_mul_mul.1 hw).2
    · rw [if_neg here]
      exact last (by simpa [nextIs] using here)

end CommandsRead

/-- **The readers of commands keep their promises with any fuel.** -/
theorem commandsRead (fuel : Nat) : CommandsRead fuel := by
  induction fuel with
  | zero => constructor <;> exact fun _ enough => absurd enough (by omega)
  | succ fuel ih =>
    exact ⟨ih.command_succ, ih.optionalCommand_succ, ih.body_succ, ih.optionalItems_succ,
      ih.items_succ, ih.moreItems_succ⟩

end Phrase
end SmallImp
