/-
# What a `for` loop means

A `for` loop makes its declaration once, and goes round in the environment that the declaration
has left: as long as the condition holds there, the body is run and after it the step
(`Phrase.ForEnds`).  Each part of a round starts from that one environment, so what the body
declares is gone before the step; an error ends the round where it is.

The tree of a `for` loop is a `while` loop under the scope of its declaration.  A loop ends just
if there are rounds that come to a place where it stops (`ends_loop_iff`): from the interpreter to
the rounds by induction on the limit, and back by induction on the rounds.
-/
import Mathlib.Logic.Relation
import SmallImp.Phrase.Tree
import SmallImp.Proofs.Semantics.BigStep
import SmallImp.Proofs.Semantics.Sequence

namespace SmallImp

/-! ## Rounds -/

section Rounds
variable (env : Environment) (condition : Expr) (round : Store → Progress → Attempt Store → Prop)

/-- From one round of a loop to the next: the condition holds, and the round ends well. -/
inductive NextRound : Store × Progress → Store × Progress → Prop
  | mk {store store' : Store} {progress after : Progress} :
      evaluateCondition env store condition = .ok true →
      round store progress ⟨.ok store', after⟩ → NextRound (store, progress) (store', after)

/-- Where a loop stops: at a condition that does not hold or has an error, or with the error of a
round. -/
inductive Stops : Store × Progress → Attempt Store → Prop
  | done {store : Store} {progress : Progress} : evaluateCondition env store condition = .ok false →
      Stops (store, progress) ⟨.ok store, progress⟩
  | conditionError {store : Store} {progress : Progress} {error : RunError} :
      evaluateCondition env store condition = .error error →
      Stops (store, progress) ⟨.error error, progress⟩
  | roundError {store : Store} {progress after : Progress} {error : RunError} :
      evaluateCondition env store condition = .ok true →
      round store progress ⟨.error error, after⟩ →
      Stops (store, progress) ⟨.error error, after⟩

/-- What rounds come to: any number of them end well, and then the loop stops. -/
def Repeats (store : Store) (progress : Progress) (attempt : Attempt Store) : Prop :=
  ∃ last, Relation.ReflTransGen (NextRound env condition round) (store, progress) last ∧
    Stops env condition round last attempt

end Rounds

section
variable {env : Environment} {store : Store} {progress : Progress} {attempt : Attempt Store}
variable {condition : Expr} {body : Command} {block : Block}

/-- Rounds within a limit are rounds. -/
theorem repeats_of_rounds {limit count : Nat}
    (h : rounds (fun store => evaluateCondition env store condition)
      (fun store progress => execute limit body env store progress) count store progress =
      some attempt) :
    Repeats env condition (Ends body env) store progress attempt := by
  have ended {store : Store} {progress : Progress} {attempt : Attempt Store}
      (h : execute limit body env store progress = some attempt) :
      Ends body env store progress attempt := ends_iff.2 ⟨limit, h⟩
  induction count generalizing store progress with
  | zero => cases h
  | succ count ih =>
    obtain ⟨error, tested, rfl⟩ | ⟨tested, rfl⟩ | ⟨tested, ⟨error, after, round, rfl⟩ |
      ⟨innerStore, between, round, later⟩⟩ := rounds_succ_iff.1 h
    · exact ⟨_, .refl, .conditionError tested⟩
    · exact ⟨_, .refl, .done tested⟩
    · exact ⟨_, .refl, .roundError tested (ended round)⟩
    · obtain ⟨last, more, stops⟩ := ih later
      exact ⟨last, .head (.mk tested (ended round)) more, stops⟩

/-- A loop ends where it stops. -/
theorem Stops.ends {state : Store × Progress}
    (h : Stops env condition (Ends body env) state attempt) :
    Ends (.loop condition body block) env state.1 state.2 attempt := by
  cases h with
  | done tested => exact ends_iff.2 ⟨1, rounds_succ_iff.2 (.inr (.inl ⟨tested, rfl⟩))⟩
  | conditionError tested => exact ends_iff.2 ⟨1, rounds_succ_iff.2 (.inl ⟨_, tested, rfl⟩)⟩
  | roundError tested round =>
    have whole : Ends (.sequence body (.loop condition body block) block) env _ _ _ :=
      ends_sequence_iff.2 (.inl ⟨_, _, round, rfl⟩)
    exact Ends.loop tested whole

/-- **A loop ends as its rounds do.** -/
theorem ends_loop_iff :
    Ends (.loop condition body block) env store progress attempt ↔
      Repeats env condition (Ends body env) store progress attempt := by
  constructor
  · intro h
    obtain ⟨limit, h⟩ := ends_iff.1 h
    rw [execute] at h
    exact repeats_of_rounds h
  · rintro ⟨last, more, stops⟩
    suffices backwards : ∀ state,
        Relation.ReflTransGen (NextRound env condition (Ends body env)) state last →
          Ends (.loop condition body block) env state.1 state.2 attempt from
      backwards _ more
    intro state more
    induction more using Relation.ReflTransGen.head_induction_on with
    | refl => exact stops.ends
    | head next _ ih =>
      obtain ⟨tested, round⟩ := next
      have whole : Ends (.sequence body (.loop condition body block) block) env _ _ attempt :=
        ends_sequence_iff.2 (.inr ⟨_, _, round, ih⟩)
      exact Ends.loop tested whole

end

namespace Phrase

/-! ## The parts of a `for` loop -/

section Parts
variable (env : Environment) (store : Store) (progress : Progress) (attempt : Attempt Store)

/-- What becomes of the declaration at the head of a loop; without one all is as it was. -/
def elaborateInitial (initial : Option Declaration) : Attempt (Environment × Store) :=
  match initial with
  | none => ⟨.ok (env, store), progress⟩
  | some written => elaborate written.tree env store progress

/-- What a command that may be left out comes to. -/
def OptionalCommand.Ends : OptionalCommand → Prop
  | .none => attempt = ⟨.ok store, progress⟩
  | .some command => SmallImp.Ends command.tree env store progress attempt

/-- What a body comes to: the items in its braces run one after the other, and their declarations
reach no further. -/
def Body.Ends : Body → Prop
  | .bare command => command.Ends env store progress attempt
  | .braced _ items _ =>
    ∃ limit, leaveScope (runItems limit items.list env store progress) = some attempt

end Parts

/-- A round of a `for` loop: the body and, if it ends well, the step, in one environment. -/
inductive RoundEnds (body : Body) (step : OptionalCommand) (env : Environment) (store : Store)
    (progress : Progress) : Attempt Store → Prop
  | bodyError {error : RunError} {after : Progress} :
      body.Ends env store progress ⟨.error error, after⟩ →
      RoundEnds body step env store progress ⟨.error error, after⟩
  | step {innerStore : Store} {between : Progress} {attempt : Attempt Store} :
      body.Ends env store progress ⟨.ok innerStore, between⟩ →
      step.Ends env innerStore between attempt →
      RoundEnds body step env store progress attempt

/-- What a `for` loop comes to: its declaration is made once, and what it leaves is the
environment of all rounds. -/
inductive ForEnds (initial : Option Declaration) (condition : Expr) (body : Body)
    (step : OptionalCommand) (env : Environment) (store : Store) (progress : Progress) :
    Attempt Store → Prop
  | initialError {error : RunError} {after : Progress} :
      elaborateInitial env store progress initial = ⟨.error error, after⟩ →
      ForEnds initial condition body step env store progress ⟨.error error, after⟩
  | rounds {inner : Environment} {innerStore : Store} {between : Progress}
      {attempt : Attempt Store} :
      elaborateInitial env store progress initial = ⟨.ok (inner, innerStore), between⟩ →
      Repeats inner condition (RoundEnds body step inner) innerStore between attempt →
      ForEnds initial condition body step env store progress attempt

section
variable {env : Environment} {store : Store} {progress : Progress} {attempt : Attempt Store}

theorem ends_nil_iff {block : Block} :
    SmallImp.Ends (.nil block) env store progress attempt ↔ attempt = ⟨.ok store, progress⟩ := by
  rw [ends_iff]
  simp only [execute, Option.some.injEq, exists_const, eq_comm]

/-- A command that may be left out comes to what its tree does, with nothing in its place. -/
theorem OptionalCommand.ends_tree_iff {command : OptionalCommand} {block : Block} :
    SmallImp.Ends (command.tree?.getD (.nil block)) env store progress attempt ↔
      command.Ends env store progress attempt := by
  cases command with
  | none => exact ends_nil_iff
  | some command => exact Iff.rfl

/-- A body comes to what its tree does. -/
theorem Body.ends_tree_iff {body : Body} {emptyAt : Block} :
    SmallImp.Ends (body.tree emptyAt) env store progress attempt ↔
      body.Ends env store progress attempt := by
  cases body with
  | bare command => exact OptionalCommand.ends_tree_iff
  | braced opening items closing =>
    rw [Body.tree, ends_iff, Body.Ends]
    refine exists_congr fun limit => ?_
    rw [(SmallImp.Command.madeOf_ofItems items.list _).execute_eq]

/-- The body and the step in a row are a round. -/
theorem ends_round_iff {body : Body} {step : OptionalCommand} {emptyAt nothingAt block : Block} :
    SmallImp.Ends (.sequence (body.tree emptyAt) (step.tree?.getD (.nil nothingAt)) block) env
        store progress attempt ↔
      RoundEnds body step env store progress attempt := by
  rw [ends_sequence_iff]
  simp only [Body.ends_tree_iff, OptionalCommand.ends_tree_iff]
  constructor
  · rintro (⟨error, after, failed, rfl⟩ | ⟨innerStore, between, ended, later⟩)
    · exact .bodyError failed
    · exact .step ended later
  · rintro (failed | ⟨ended, later⟩)
    · exact .inl ⟨_, _, failed, rfl⟩
    · exact .inr ⟨_, _, ended, later⟩

/-- The tree of a loop: the scope of a declaration that does what the head of the loop does, over
a `while` loop. -/
theorem exists_scope_of_expandedFor (initial : Option Declaration) (condition : Expr)
    (body : SmallImp.Command) (step : Option SmallImp.Command) (block : Block) :
    ∃ declaration nothingAt round,
      expandedFor initial condition body step block =
        .scope declaration
          (.loop condition (.sequence body (step.getD (.nil nothingAt)) round) block) block ∧
      ∀ env store progress,
        elaborate declaration env store progress = elaborateInitial env store progress initial := by
  cases initial with
  | none => exact ⟨.nil block.start, _, _, rfl, fun _ _ _ => rfl⟩
  | some written => exact ⟨written.tree, _, _, rfl, fun _ _ _ => rfl⟩

/-- The scope of a declaration over a loop ends as the loop does in the environment that the
declaration has left. -/
theorem ends_expandedFor_iff {initial : Option Declaration} {condition : Expr} {body : Body}
    {step : OptionalCommand} {emptyAt block : Block} :
    SmallImp.Ends (expandedFor initial condition (body.tree emptyAt) step.tree? block) env store
        progress attempt ↔
      ForEnds initial condition body step env store progress attempt := by
  obtain ⟨declaration, nothingAt, roundBlock, tree, made⟩ :=
    exists_scope_of_expandedFor initial condition (body.tree emptyAt) step.tree? block
  have round (env : Environment) : SmallImp.Ends
        (.sequence (body.tree emptyAt) (step.tree?.getD (.nil nothingAt)) roundBlock) env =
      RoundEnds body step env :=
    funext fun _ => funext fun _ => funext fun _ => propext ends_round_iff
  rw [tree, ends_scope_iff, made]
  simp only [ends_loop_iff, round]
  constructor
  · rintro (⟨error, after, failed, rfl⟩ | ⟨inner, innerStore, between, elaborated, later⟩)
    · exact .initialError failed
    · exact .rounds elaborated later
  · rintro (failed | ⟨elaborated, later⟩)
    · exact .inl ⟨_, _, failed, rfl⟩
    · exact .inr ⟨_, _, _, elaborated, later⟩

/-- The declaration at the head of a loop gives out one location at most. -/
theorem elaborateInitial_next_le (initial : Option Declaration) :
    (elaborateInitial env store progress initial).progress.next ≤ progress.next + 1 := by
  cases initial with
  | none => exact Nat.le_succ _
  | some written =>
    rw [elaborateInitial, Declaration.tree]
    split
    all_goals
      rw [elaborate]
      cases evaluate env store written.value with
      | error error => exact Nat.le_succ _
      | ok value => first | exact Nat.le_succ _ | exact Nat.le_refl _

/-- The declaration at the head of a loop binds its own name and no other. -/
theorem exists_bindings_of_elaborateInitial {initial : Option Declaration} {inner : Environment}
    {innerStore : Store} {between : Progress}
    (h : elaborateInitial env store progress initial = ⟨.ok (inner, innerStore), between⟩) :
    ∃ bindings, bindings.map Prod.fst = initial.toList.map (·.name.name) ∧
      inner = env.extendAll bindings := by
  cases initial with
  | none =>
    cases h
    exact ⟨[], rfl, rfl⟩
  | some written =>
    obtain ⟨bindings, bound, eq⟩ := exists_bindings_of_elaborate h
    refine ⟨bindings, bound.trans ?_, eq⟩
    rw [Declaration.tree]
    split <;> rfl

end

/-- **A `for` loop makes its declaration once, and goes round in the environment that it has
left**: its run ends as `ForEnds` says, and within no limit just if nothing is said there.  The
declaration gives out one location at most and binds no name but its own; what comes after the
loop runs in the environment from before it. -/
theorem ends_forLoop (start : Block) (initial : Option Declaration) (condition : Expr)
    (step : OptionalCommand) (closing : Block) (doAt : Option Block) (body : Body)
    (env : Environment) (store : Store) (progress : Progress) :
    let loop := (Command.forLoop start initial condition step closing doAt body).tree
    let ends := ForEnds initial condition body step env store progress
    (∀ attempt, SmallImp.Ends loop env store progress attempt ↔ ends attempt) ∧
      ((∀ limit, execute limit loop env store progress = none) ↔ ¬∃ attempt, ends attempt) ∧
      (elaborateInitial env store progress initial).progress.next ≤ progress.next + 1 ∧
      (∀ inner innerStore between,
        elaborateInitial env store progress initial = ⟨.ok (inner, innerStore), between⟩ →
        ∃ bindings, bindings.map Prod.fst = initial.toList.map (·.name.name) ∧
          inner = env.extendAll bindings) ∧
      ∀ later block attempt, SmallImp.Ends (.sequence loop later block) env store progress attempt ↔
        (∃ error after, ends ⟨.error error, after⟩ ∧ attempt = ⟨.error error, after⟩) ∨
        ∃ innerStore between, ends ⟨.ok innerStore, between⟩ ∧
          SmallImp.Ends later env innerStore between attempt := by
  intro loop ends
  have whole (attempt : Attempt Store) :
      SmallImp.Ends loop env store progress attempt ↔ ends attempt := by
    simp only [loop, Command.tree]
    exact ends_expandedFor_iff
  refine ⟨whole, ?_, elaborateInitial_next_le initial,
    fun _ _ _ => exists_bindings_of_elaborateInitial, fun later block attempt => ?_⟩
  · simp only [← whole, ends_iff, Option.eq_none_iff_forall_ne_some, not_exists]
    exact forall_comm
  · simp only [← whole, ends_sequence_iff]

/-- `for (let b : bool = true, b, b = false) { let b : bool = false print b }`: the `b` of the body
is not the one of the condition and the step, and neither is there after the loop. -/
theorem ends_forLoop_shadowed :
    let literal (lexeme : String) : Expr := .value ⟨.boolean, lexeme, .origin⟩ .origin
    let b : Identifier := ⟨"b", .origin⟩
    let initial (lexeme : String) : Declaration :=
      ⟨.origin, false, true, b, ⟨.boolean, .origin⟩, literal lexeme⟩
    let printed : Command := .print .origin (.identifier b .origin)
    let body : Body :=
      .braced .origin (.declaration (initial "false") (.command printed .nil)) .origin
    let step : OptionalCommand := .some (.assign b (literal "false"))
    let loop := Command.forLoop .origin (some (initial "true")) (.identifier b .origin) step
      .origin none body
    let store : Store := ⟨[(⟨0⟩, .boolean false), (⟨1⟩, .boolean false)]⟩
    (∃ inner innerStore between, elaborateInitial .empty .empty (.fresh 0) (some (initial "true")) =
        ⟨.ok (inner, innerStore), between⟩ ∧
      ∃ bindings, bindings.map Prod.fst = ["b"] ∧ inner = Bindings.empty.extendAll bindings) ∧
    ∃ after, after.output = "false\n" ∧ after.next = 2 ∧
      ForEnds (some (initial "true")) (.identifier b .origin) body step .empty .empty (.fresh 0)
        ⟨.ok store, after⟩ ∧
      SmallImp.Ends (.sequence loop.tree printed.tree .origin) .empty .empty (.fresh 0)
        ⟨.error (.undefinedIdentifier "b" .origin), after⟩ := by
  intro literal b initial printed body step loop store
  obtain ⟨whole, -, -, bound, later⟩ :=
    ends_forLoop .origin (some (initial "true")) (.identifier b .origin) step .origin none body
      .empty .empty (.fresh 0)
  obtain ⟨after, output, next, ran⟩ : ∃ after : Progress, after.output = "false\n" ∧
      after.next = 2 ∧
      execute 2 loop.tree .empty .empty (.fresh 0) = some ⟨.ok store, after⟩ :=
    ⟨_, rfl, rfl, rfl⟩
  have ended := (whole _).1 (ends_iff.2 ⟨2, ran⟩)
  refine ⟨⟨_, _, _, rfl, bound _ _ _ rfl⟩, after, output, next, ended, ?_⟩
  exact (later printed.tree .origin _).2 (.inr ⟨store, after, ended, ends_iff.2 ⟨0, rfl⟩⟩)

end Phrase

end SmallImp
