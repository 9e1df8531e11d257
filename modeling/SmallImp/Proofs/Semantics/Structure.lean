/-
# Meaning depends on structure only

A run reads the blocks of its tree where it fails, and nowhere else.  So a tree and the tree that
is stripped of its blocks, its parentheses and its written types (`Command.stripped`) run alike,
up to the block of an error (`RunError.erased`): this is an equation for each of the functions
that run a tree, shown along its recursion.  Wherever a computation goes on with the value of
another, it is enough that the two parts agree so (`mapError_bind_congr`).

Two commands of one structure are stripped to one command, hence run alike
(`runsAlike_of_structure`).
-/
import SmallImp.Program
import SmallImp.Proofs.Phrase.Shape
import SmallImp.Proofs.Semantics.Execution
import SmallImp.Proofs.Tree.Structure

namespace SmallImp

/-! ## Errors without their blocks -/

/-- An error with its block erased. -/
def RunError.erased : RunError → RunError
  | .undefinedIdentifier name _ => .undefinedIdentifier name .origin
  | .constantReassignment name _ => .constantReassignment name .origin
  | .wrongType expected found _ => .wrongType expected found .origin
  | .unknownDeclaration _ => .unknownDeclaration .origin
  | .divisionByZero _ => .divisionByZero .origin
  | .unknownOperator symbol _ => .unknownOperator symbol .origin
  | .unknownCommand _ => .unknownCommand .origin
  | .unknownExpression _ => .unknownExpression .origin
  | .unboundLocation location => .unboundLocation location
  | .arithmetic fault => .arithmetic fault

/-- An attempt with the block of its error erased. -/
def Attempt.erased {α : Type} (attempt : Attempt α) : Attempt α :=
  ⟨attempt.result.mapError RunError.erased, attempt.progress⟩

@[simp]
theorem Attempt.erased_error {α : Type} (error : RunError) (progress : Progress) :
    (⟨.error error, progress⟩ : Attempt α).erased = ⟨.error error.erased, progress⟩ := rfl

@[simp]
theorem Attempt.erased_ok {α : Type} (value : α) (progress : Progress) :
    (⟨.ok value, progress⟩ : Attempt α).erased = ⟨.ok value, progress⟩ := rfl

/-- Two computations agree up to their errors if they fail with errors that do, or have one value. -/
theorem mapError_eq_iff {α : Type} {r : RunError → RunError} {x y : Except RunError α} :
    x.mapError r = y.mapError r ↔
      (∃ error error', x = .error error ∧ y = .error error' ∧ r error = r error') ∨
      ∃ value, x = .ok value ∧ y = .ok value := by
  rcases x with error | value <;> rcases y with error' | value' <;>
    simp [Except.mapError, eq_comm]

/-- A computation and what goes on with its value may be exchanged one by one. -/
theorem mapError_bind_congr {α β : Type} {r : RunError → RunError} {x y : Except RunError α}
    {f g : α → Except RunError β} (first : x.mapError r = y.mapError r)
    (later : ∀ a, (f a).mapError r = (g a).mapError r) :
    (x.bind f).mapError r = (y.bind g).mapError r := by
  rcases mapError_eq_iff.1 first with ⟨error, error', rfl, rfl, same⟩ | ⟨value, rfl, rfl⟩
  · exact congrArg Except.error same
  · exact later value

theorem mapError_map_congr {α β : Type} {r : RunError → RunError} {x y : Except RunError α}
    {f : α → β} (same : x.mapError r = y.mapError r) :
    (x.map f).mapError r = (y.map f).mapError r := by
  rcases mapError_eq_iff.1 same with ⟨error, error', rfl, rfl, agree⟩ | ⟨value, rfl, rfl⟩
  · exact congrArg Except.error agree
  · rfl

/-! ## Expressions -/

@[simp]
theorem Identifier.name_erased (name : Identifier) : name.erased.name = name.name := rfl

@[simp]
theorem Operator.symbol_erased (operator : Operator) :
    operator.erased.symbol = operator.symbol := rfl

variable {env : Environment} {store : Store}

/-- The block of a name is of no matter. -/
theorem resolve_erased (name : Identifier) :
    (resolve name.erased env).mapError RunError.erased =
      (resolve name env).mapError RunError.erased := by
  unfold resolve
  rw [Identifier.name_erased]
  cases env.get? name.name <;> rfl

/-- The block of a value that is not of the expected type is of no matter. -/
theorem Value.expect_erased (value : Value) (type : Ty) (block block' : Block) :
    (value.expect type block).mapError RunError.erased =
      (value.expect type block').mapError RunError.erased := by
  unfold expect
  split <;> rfl

theorem BinaryOperator.check_erased (operator : BinaryOperator) (a b : Value)
    (left right left' right' : Block) :
    (operator.check a b left right).mapError RunError.erased =
      (operator.check a b left' right').mapError RunError.erased := by
  unfold check
  split
  · exact b.expect_erased a.ty right right'
  · exact mapError_bind_congr (a.expect_erased _ left left')
      fun _ => b.expect_erased _ right right'

theorem Operator.applyUnary_erased (operator : Operator) (a : Value) (operand operand' : Block) :
    (operator.erased.applyUnary a operand).mapError RunError.erased =
      (operator.applyUnary a operand').mapError RunError.erased := by
  rw [applyUnary, applyUnary, symbol_erased]
  cases UnaryOperator.ofSymbol? operator.symbol with
  | none => rfl
  | some known =>
    exact mapError_map_congr (a.expect_erased known.operandType operand operand')

theorem Operator.applyBinary_erased (operator : Operator) (a b : Value)
    (left right left' right' : Block) :
    (operator.erased.applyBinary a b left right).mapError RunError.erased =
      (operator.applyBinary a b left' right').mapError RunError.erased := by
  rw [applyBinary, applyBinary, symbol_erased]
  cases BinaryOperator.ofSymbol? operator.symbol with
  | none => rfl
  | some known =>
    refine mapError_bind_congr (known.check_erased a b left right left' right') ?_
    intro _
    split <;> rfl

/-- **An expression and the stripped one have one value**, or fail alike. -/
theorem evaluate_stripped (env : Environment) (store : Store) (e : Expr) :
    (evaluate env store e.stripped).mapError RunError.erased =
      (evaluate env store e).mapError RunError.erased := by
  induction e with
  | value | unknown => rfl
  | identifier name block =>
    rw [Expr.stripped, evaluate, evaluate]
    exact mapError_bind_congr (resolve_erased name) fun _ => rfl
  | unary operator operand _ ih =>
    rw [Expr.stripped, evaluate, evaluate]
    exact mapError_bind_congr ih fun a => operator.applyUnary_erased a _ _
  | binary left operator right _ ihLeft ihRight =>
    rw [Expr.stripped, evaluate, evaluate]
    exact mapError_bind_congr ihLeft fun a => mapError_bind_congr ihRight fun b =>
      operator.applyBinary_erased a b _ _ _ _
  | parenthesis _ _ ih => exact ih

theorem evaluateCondition_stripped (env : Environment) (store : Store) (condition : Expr) :
    (evaluateCondition env store condition.stripped).mapError RunError.erased =
      (evaluateCondition env store condition).mapError RunError.erased := by
  refine mapError_bind_congr (evaluate_stripped env store condition) ?_
  intro value
  exact mapError_map_congr (value.expect_erased .boolean condition.stripped.block condition.block)

/-! ## Declarations and commands -/

/-- Two attempts agree up to the block of an error: both fail alike, or they are the same. -/
theorem Attempt.erased_eq_iff {α : Type} {a b : Attempt α} :
    a.erased = b.erased ↔
      (∃ error error' after, a = ⟨.error error, after⟩ ∧ b = ⟨.error error', after⟩ ∧
        error.erased = error'.erased) ∨
      ∃ value after, a = ⟨.ok value, after⟩ ∧ b = ⟨.ok value, after⟩ := by
  obtain ⟨error | value, after⟩ := a <;> obtain ⟨error' | value', after'⟩ := b <;>
    simp [and_comm, eq_comm]

/-- Two runs that may go on beyond the limit agree up to the block of an error: both go on, both
fail alike, or both succeed in the same way. -/
theorem map_erased_eq_iff {α : Type} {x y : Option (Attempt α)} :
    x.map Attempt.erased = y.map Attempt.erased ↔
      (x = none ∧ y = none) ∨
      (∃ error error' after, x = some ⟨.error error, after⟩ ∧ y = some ⟨.error error', after⟩ ∧
        error.erased = error'.erased) ∨
      ∃ value after, x = some ⟨.ok value, after⟩ ∧ y = some ⟨.ok value, after⟩ := by
  rcases x with _ | ⟨error | value, after⟩ <;> rcases y with _ | ⟨error' | value', after'⟩ <;>
    simp [and_comm, eq_comm]

/-- **A declaration and the stripped one do the same**, or fail alike. -/
theorem elaborate_stripped (declaration : Declaration) (env : Environment) (store : Store)
    (progress : Progress) :
    (elaborate declaration.stripped env store progress).erased =
      (elaborate declaration env store progress).erased := by
  induction declaration generalizing env store progress with
  | nil | unknown => rfl
  | «variable» name type initial _ | constant name type initial _ =>
    rw [Declaration.stripped, elaborate, elaborate, Identifier.name_erased]
    rcases mapError_eq_iff.1 (evaluate_stripped env store initial) with
      ⟨error, error', failed, failed', same⟩ | ⟨held, value, value'⟩
    · rw [failed, failed', Attempt.erased_error, Attempt.erased_error, same]
    · rw [value, value']
  | group first second _ ihFirst ihSecond =>
    rw [Declaration.stripped, elaborate, elaborate]
    rcases Attempt.erased_eq_iff.1 (ihFirst env store progress) with
      ⟨error, error', after, firstly, firstly', same⟩ | ⟨⟨inner, held⟩, after, firstly, firstly'⟩
    · rw [firstly, firstly', Attempt.erased_error, Attempt.erased_error, same]
    · rw [firstly, firstly']
      exact ihSecond inner held after

/-- Rounds agree if their conditions and their bodies do. -/
theorem rounds_congr {condition condition' : Store → Except RunError Bool}
    {round round' : Store → Progress → Option (Attempt Store)}
    (test : ∀ store, (condition store).mapError RunError.erased =
      (condition' store).mapError RunError.erased)
    (body : ∀ store progress, (round store progress).map Attempt.erased =
      (round' store progress).map Attempt.erased)
    (limit : Nat) (store : Store) (progress : Progress) :
    (rounds condition round limit store progress).map Attempt.erased =
      (rounds condition' round' limit store progress).map Attempt.erased := by
  induction limit generalizing store progress with
  | zero => rfl
  | succ limit ih =>
    rw [rounds, rounds]
    rcases mapError_eq_iff.1 (test store) with
      ⟨error, error', failed, failed', same⟩ | ⟨again, value, value'⟩
    · simp [failed, failed', same]
    rw [value, value']
    cases again with
    | false => rfl
    | true =>
      rcases map_erased_eq_iff.1 (body store progress) with
        ⟨beyond, beyond'⟩ | ⟨error, error', after, failed, failed', same⟩ |
          ⟨inner, after, done, done'⟩
      · simp [beyond, beyond']
      · simp [failed, failed', same]
      · simpa [done, done'] using ih inner after

/-- **A command and the stripped one run alike**, within any limit. -/
theorem execute_stripped (limit : Nat) (command : Command) (env : Environment) (store : Store)
    (progress : Progress) :
    (execute limit command.stripped env store progress).map Attempt.erased =
      (execute limit command env store progress).map Attempt.erased := by
  induction command generalizing env store progress with
  | nil | unknown => rfl
  | scope declaration body _ ih =>
    rw [Command.stripped, execute, execute]
    rcases Attempt.erased_eq_iff.1 (elaborate_stripped declaration env store progress) with
      ⟨error, error', after, failed, failed', same⟩ | ⟨⟨inner, held⟩, after, done, done'⟩
    · simp [failed, failed', same]
    · simpa [done, done'] using ih inner held after
  | sequence first second _ ihFirst ihSecond =>
    rw [Command.stripped, execute, execute]
    rcases map_erased_eq_iff.1 (ihFirst env store progress) with
      ⟨beyond, beyond'⟩ | ⟨error, error', after, failed, failed', same⟩ |
        ⟨inner, after, done, done'⟩
    · simp [beyond, beyond']
    · simp [failed, failed', same]
    · simpa [done, done'] using ihSecond env inner after
  | assign target value _ =>
    rw [Command.stripped, execute_assign, execute_assign, Identifier.name_erased]
    cases env.get? target.name with
    | none => rfl
    | some binding =>
      cases binding with
      | value => rfl
      | location cell =>
        have same := mapError_map_congr (f := store.extend cell)
          (evaluate_stripped env store value)
        exact congrArg (fun result => some (Attempt.mk result progress)) same
  | branch condition body _ ih =>
    rw [Command.stripped, execute, execute]
    rcases mapError_eq_iff.1 (evaluateCondition_stripped env store condition) with
      ⟨error, error', failed, failed', same⟩ | ⟨which, value, value'⟩
    · simp [failed, failed', same]
    · rw [value, value']
      cases which with
      | false => rfl
      | true => exact ih env store progress
  | branchElse condition body otherwise _ ihBody ihOtherwise =>
    rw [Command.stripped, execute, execute]
    rcases mapError_eq_iff.1 (evaluateCondition_stripped env store condition) with
      ⟨error, error', failed, failed', same⟩ | ⟨which, value, value'⟩
    · simp [failed, failed', same]
    · rw [value, value']
      cases which with
      | false => exact ihOtherwise env store progress
      | true => exact ihBody env store progress
  | loop condition body _ ih =>
    rw [Command.stripped, execute, execute]
    exact rounds_congr (fun store => evaluateCondition_stripped env store condition)
      (fun store progress => ih env store progress) limit store progress
  | print value _ =>
    rw [Command.stripped, execute_print, execute_print]
    rcases mapError_eq_iff.1 (evaluate_stripped env store value) with
      ⟨error, error', failed, failed', same⟩ | ⟨held, done, done'⟩
    · simp [failed, failed', same]
    · rw [done, done']

/-! ## Commands of one structure -/

/-- Two commands that run alike from one state: both runs go on for ever, or both fail and leave
the same behind, with errors that differ in their blocks at most, or both succeed with one store
and leave the same behind.  What is left behind is the text printed and the index of the next
location. -/
def RunsAlike (a b : Command) (env : Environment) (store : Store) (progress : Progress) : Prop :=
  ((∀ limit, execute limit a env store progress = none) ∧
    ∀ limit, execute limit b env store progress = none) ∨
  (∃ error error' after, error.erased = error'.erased ∧
    Ends a env store progress ⟨.error error, after⟩ ∧
    Ends b env store progress ⟨.error error', after⟩) ∨
  ∃ final after, Ends a env store progress ⟨.ok final, after⟩ ∧
    Ends b env store progress ⟨.ok final, after⟩

/-- Runs that agree within all limits are alike. -/
theorem runsAlike_of_map_erased_eq {a b : Command} {progress : Progress}
    (h : ∀ limit, (execute limit a env store progress).map Attempt.erased =
      (execute limit b env store progress).map Attempt.erased) :
    RunsAlike a b env store progress := by
  by_cases never : ∀ limit, execute limit a env store progress = none
  · refine .inl ⟨never, fun limit => ?_⟩
    have both := h limit
    rw [never limit] at both
    exact Option.map_eq_none_iff.1 both.symm
  · refine .inr ?_
    obtain ⟨limit, ended⟩ := Classical.not_forall.1 never
    rcases map_erased_eq_iff.1 (h limit) with
      ⟨beyond, -⟩ | ⟨error, error', after, failed, failed', same⟩ | ⟨final, after, done, done'⟩
    · exact absurd beyond ended
    · exact .inl ⟨error, error', after, same, ends_iff.2 ⟨limit, failed⟩,
        ends_iff.2 ⟨limit, failed'⟩⟩
    · exact .inr ⟨final, after, ends_iff.2 ⟨limit, done⟩, ends_iff.2 ⟨limit, done'⟩⟩

/-- Commands that are stripped to one run alike. -/
theorem runsAlike_of_stripped_eq {a b : Command} (same : a.stripped = b.stripped)
    (env : Environment) (store : Store) (progress : Progress) :
    RunsAlike a b env store progress := by
  refine runsAlike_of_map_erased_eq fun limit => ?_
  rw [← execute_stripped limit a, same, execute_stripped limit b]

/-- **Meaning depends only on structure.**  Take two commands with nothing unknown in them whose
nodes become one when all blocks are erased, parentheses are replaced by what they enclose and the
kinds of the types that they write are disregarded.  Then they run alike from every state.  So do
the programs of two sources whose trees agree but for their blocks. -/
theorem runsAlike_of_structure :
    (∀ a b : Command, a.Known → b.Known → a.node.stripped = b.node.stripped →
      ∀ env store progress, RunsAlike a b env store progress) ∧
    ∀ source source' program program', parse source = .ok program →
      parse source' = .ok program' → program.node.same program'.node = true →
      ∀ env store progress, RunsAlike program program' env store progress := by
  refine ⟨fun a b known known' same => runsAlike_of_stripped_eq (known.stripped_eq known' same),
    fun source source' program program' parsed parsed' same => ?_⟩
  have known : program.Known := (parse_shaped parsed).known
  have known' : program'.Known := (parse_shaped parsed').known
  exact runsAlike_of_stripped_eq (known.stripped_eq known' (Node.stripped_eq_of_same same))

/-- `let x : num = (true); print x + 1` and `let x : bool = true; print x + 1`: both fail, at the
first operand of `+`, which is in another place. -/
theorem runsAlike_of_structure_parenthesis :
    let one : Expr := .value ⟨.number, "1", .origin⟩ .origin
    let sum (block : Block) : Expr :=
      .binary (.identifier ⟨"x", block⟩ block) ⟨.binary, "+", .origin⟩ one .origin
    let place : Block := ⟨⟨1, 30⟩, ⟨1, 31⟩⟩
    let a : Command :=
      .scope (.variable ⟨"x", .origin⟩ (.leaf (.type .number) .origin)
        (.parenthesis (.value ⟨.boolean, "true", .origin⟩ .origin) .origin) .origin)
        (.print (sum place) .origin) .origin
    let b : Command :=
      .scope (.variable ⟨"x", .origin⟩ (.leaf (.type .boolean) .origin)
        (.value ⟨.boolean, "true", .origin⟩ .origin) .origin)
        (.print (sum .origin) .origin) .origin
    a.Known ∧ b.Known ∧ a.node.stripped = b.node.stripped ∧
    ∃ error after,
      Ends a .empty .empty (.fresh 0) ⟨.error (.wrongType .number .boolean place), after⟩ ∧
      Ends b .empty .empty (.fresh 0) ⟨.error error, after⟩ ∧
      error.erased = .wrongType .number .boolean .origin := by
  intro one sum place a b
  have known : a.Known := ⟨trivial, trivial, trivial⟩
  have known' : b.Known := ⟨trivial, trivial, trivial⟩
  have same : a.node.stripped = b.node.stripped := rfl
  have ends := ends_iff.2 ⟨0, (rfl : execute 0 a .empty .empty (.fresh 0) =
    some ⟨.error (.wrongType .number .boolean place), _⟩)⟩
  refine ⟨known, known', same, ?_⟩
  rcases runsAlike_of_structure.1 a b known known' same .empty .empty (.fresh 0) with
    ⟨never, -⟩ | ⟨error, error', after, agree, failed, failed'⟩ | ⟨final, after, done, -⟩
  · obtain ⟨limit, ended⟩ := ends_iff.1 ends
    exact absurd (never limit) (by rw [ended]; exact Option.some_ne_none _)
  · obtain ⟨error_eq, after_eq⟩ := Attempt.mk.inj (ends.unique failed)
    have error_eq : _ = error := Except.error.inj error_eq
    rw [← error_eq] at failed agree
    exact ⟨error', after, failed, failed', agree.symm⟩
  · obtain ⟨result_eq, -⟩ := Attempt.mk.inj (ends.unique done)
    cases result_eq

end SmallImp
