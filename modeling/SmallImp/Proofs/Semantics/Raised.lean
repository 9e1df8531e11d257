/-
# Where errors are raised

An error comes up at one of the calls of a run and is handed on from there.  There is one way for
each check that the interpreter makes (`Raised`): a name is looked up, a constant is assigned to,
an operator is applied to values, a condition is tested, or a node is none that is known.

The error of a run is raised at one of its calls (`Command.raised`), by induction on the tree, and
for a loop on the limit.  The condition of a loop is tested in the state of a round, which is not
that in which the loop was entered; so the call to evaluate the condition is named as well.
-/
import SmallImp.Proofs.Semantics.Calls
import SmallImp.Proofs.Semantics.Execution
import SmallImp.Proofs.Semantics.Rules

namespace SmallImp

/-- The condition that a command tests. -/
def Command.condition? : Command → Option Expr
  | .branch condition _ _ | .branchElse condition _ _ _ | .loop condition _ _ => some condition
  | .nil _ | .scope .. | .sequence .. | .assign .. | .print .. | .unknown _ => none

/-- The errors that are raised at some calls. -/
inductive Raised (calls : List Call) : RunError → Prop
  | name {name block env store next} :
      ⟨.evaluate (.identifier name block), env, store, next⟩ ∈ calls →
      env.get? name.name = none → Raised calls (.undefinedIdentifier name.name name.block)
  | target {target value block env store next} :
      ⟨.execute (.assign target value block), env, store, next⟩ ∈ calls →
      env.get? target.name = none → Raised calls (.undefinedIdentifier target.name target.block)
  | constant {target value block env store next held} :
      ⟨.execute (.assign target value block), env, store, next⟩ ∈ calls →
      env.get? target.name = some (.value held) →
      Raised calls (.constantReassignment target.name block)
  | unary {operator operand block env store next a error} :
      ⟨.evaluate (.unary operator operand block), env, store, next⟩ ∈ calls →
      evaluate env store operand = .ok a → Applies operator operand.block a (.error error) →
      Raised calls error
  | binary {left operator right block env store next a b error} :
      ⟨.evaluate (.binary left operator right block), env, store, next⟩ ∈ calls →
      evaluate env store left = .ok a → evaluate env store right = .ok b →
      Combines operator left.block right.block a b (.error error) → Raised calls error
  | condition {command condition env entered store next next' value} :
      ⟨.execute command, env, entered, next⟩ ∈ calls → command.condition? = some condition →
      ⟨.evaluate condition, env, store, next'⟩ ∈ calls → evaluate env store condition = .ok value →
      value.ty ≠ .boolean → Raised calls (.wrongType .boolean value.ty condition.block)
  | unbound {name block env store next cell} :
      ⟨.evaluate (.identifier name block), env, store, next⟩ ∈ calls →
      env.get? name.name = some (.location cell) → store.get? cell = none →
      Raised calls (.unboundLocation cell)
  | unknownExpression {node env store next} :
      ⟨.evaluate (.unknown node), env, store, next⟩ ∈ calls →
      Raised calls (.unknownExpression node.block)
  | unknownDeclaration {node env store next} :
      ⟨.elaborate (.unknown node), env, store, next⟩ ∈ calls →
      Raised calls (.unknownDeclaration node.block)
  | unknownCommand {node env store next} :
      ⟨.execute (.unknown node), env, store, next⟩ ∈ calls →
      Raised calls (.unknownCommand node.block)

namespace Raised

variable {error : RunError} {call : Call} {calls first second : List Call}

/-- What is raised at some calls is raised at more of them. -/
theorem mono (h : Raised first error) (sub : first ⊆ second) : Raised second error := by
  induction h with
  | name mem missing => exact .name (sub mem) missing
  | target mem missing => exact .target (sub mem) missing
  | constant mem found => exact .constant (sub mem) found
  | unary mem value applies => exact .unary (sub mem) value applies
  | binary mem left right combines => exact .binary (sub mem) left right combines
  | condition mem tests mem' value other =>
    exact .condition (sub mem) tests (sub mem') value other
  | unbound mem found missing => exact .unbound (sub mem) found missing
  | unknownExpression mem => exact .unknownExpression (sub mem)
  | unknownDeclaration mem => exact .unknownDeclaration (sub mem)
  | unknownCommand mem => exact .unknownCommand (sub mem)

theorem cons (h : Raised calls error) : Raised (call :: calls) error :=
  h.mono (List.subset_cons_self _ _)

theorem append_left (h : Raised first error) : Raised (first ++ second) error :=
  h.mono (List.subset_append_left _ _)

theorem append_right (h : Raised second error) : Raised (first ++ second) error :=
  h.mono (List.subset_append_right _ _)

end Raised

/-! ## Expressions -/

section
variable {env : Environment} {store : Store} {next : Nat} {error : RunError}

/-- The first call of an expression is for the whole of it. -/
theorem Expr.mem_calls (e : Expr) : ⟨.evaluate e, env, store, next⟩ ∈ e.calls env store next := by
  cases e <;> exact List.mem_cons_self

/-- **The error of an expression is raised at one of its calls.** -/
theorem Expr.raised {e : Expr} (h : evaluate env store e = .error error) :
    Raised (e.calls env store next) error := by
  have here : ⟨.evaluate e, env, store, next⟩ ∈ e.calls env store next := e.mem_calls
  induction e generalizing error with
  | value => cases h
  | identifier name block =>
    cases evaluates_iff.2 h with
    | undefined missing => exact .name here missing
    | unbound found missing => exact .unbound here found missing
  | unary operator operand block ih =>
    cases evaluates_iff.2 h with
    | operandError failed => exact (ih (evaluates_iff.1 failed) operand.mem_calls).cons
    | unary value applies => exact .unary here (evaluates_iff.1 value) applies
  | binary left operator right block ihLeft ihRight =>
    cases evaluates_iff.2 h with
    | leftError failed => exact (ihLeft (evaluates_iff.1 failed) left.mem_calls).append_left.cons
    | rightError value failed =>
      rw [Expr.calls, evaluates_iff.1 value]
      exact (ihRight (evaluates_iff.1 failed) right.mem_calls).append_right.cons
    | binary first second combines =>
      exact .binary here (evaluates_iff.1 first) (evaluates_iff.1 second) combines
  | parenthesis inner block ih => exact (ih h inner.mem_calls).cons
  | unknown =>
    cases h
    exact .unknownExpression here

/-- The error of a condition is raised at one of its calls, or by its value. -/
theorem Expr.raised_condition {command : Command} {condition : Expr} {entered : Store}
    {outer : Nat} {calls : List Call}
    (mem : ⟨.execute command, env, entered, outer⟩ ∈ calls)
    (tests : command.condition? = some condition) (sub : condition.calls env store next ⊆ calls)
    (h : evaluateCondition env store condition = .error error) : Raised calls error := by
  cases tests_iff.2 h with
  | error failed => exact (Expr.raised (evaluates_iff.1 failed)).mono sub
  | wrongType value other =>
    exact .condition mem tests (sub condition.mem_calls) (evaluates_iff.1 value) other

end

/-! ## Declarations and commands -/

section
variable {env : Environment} {store : Store} {progress after : Progress} {limit : Nat}
variable {error : RunError}

/-- The error of a declaration is raised at one of its calls. -/
theorem Declaration.raised {declaration : Declaration}
    (h : elaborate declaration env store progress = ⟨.error error, after⟩) :
    Raised (declaration.calls env store progress) error := by
  induction declaration generalizing env store progress with
  | nil => cases h
  | «variable» name type initial block | constant name type initial block =>
    rw [elaborate] at h
    cases result : evaluate env store initial with
    | ok value => rw [result] at h; cases h
    | error failure =>
      rw [result] at h
      cases h
      exact (Expr.raised result).cons
  | group first second block ihFirst ihSecond =>
    rw [elaborate] at h
    rw [Declaration.calls]
    rcases firstly : elaborate first env store progress with
      ⟨failure | ⟨innerEnv, innerStore⟩, between⟩
    · rw [firstly] at h
      cases h
      exact (ihFirst firstly).append_left.cons
    · rw [firstly] at h
      exact (ihSecond h).append_right.cons
  | unknown =>
    cases h
    exact .unknownDeclaration List.mem_cons_self

/-- The error of the rounds of a loop is raised at a call of one of them. -/
theorem rounds_raised {condition : Expr} {body : Command} {block : Block} {entered : Store}
    {outer : Nat} {calls : List Call}
    (mem : ⟨.execute (.loop condition body block), env, entered, outer⟩ ∈ calls)
    (bodies : ∀ {store progress},
      execute limit body env store progress = some ⟨.error error, after⟩ →
      Raised (body.calls limit env store progress) error) {count : Nat}
    (sub : roundsCalls (fun store => evaluateCondition env store condition)
      (fun store progress => execute limit body env store progress)
      (fun store progress => condition.calls env store progress.next)
      (fun store progress => body.calls limit env store progress) count store progress ⊆ calls)
    (h : rounds (fun store => evaluateCondition env store condition)
      (fun store progress => execute limit body env store progress) count store progress =
      some ⟨.error error, after⟩) : Raised calls error := by
  induction count generalizing store progress with
  | zero => cases h
  | succ count ih =>
    rw [roundsCalls, List.append_subset] at sub
    obtain ⟨test, later⟩ := sub
    obtain ⟨failure, tested, same⟩ | ⟨-, same⟩ | ⟨tested, h⟩ := rounds_succ_iff.1 h
    · cases same
      exact Expr.raised_condition mem rfl test tested
    · cases same
    · rw [tested, List.append_subset] at later
      obtain ⟨failure, after', round, same⟩ | ⟨innerStore, between, round, more⟩ := h
      · cases same
        exact (bodies round).mono later.1
      · have rest := later.2
        rw [round] at rest
        exact ih rest more

/-- **The error of a command is raised at one of its calls.** -/
theorem Command.raised {command : Command}
    (h : execute limit command env store progress = some ⟨.error error, after⟩) :
    Raised (command.calls limit env store progress) error := by
  induction command generalizing env store progress with
  | nil => cases h
  | scope declaration body block ih =>
    rw [Command.calls]
    obtain ⟨failure, after', elaborated, same⟩ |
      ⟨innerEnv, innerStore, between, elaborated, later⟩ := execute_scope_iff.1 h
    · cases same
      exact (Declaration.raised elaborated).append_left.cons
    · rw [elaborated]
      exact (ih later).append_right.cons
  | sequence first second block ihFirst ihSecond =>
    rw [Command.calls]
    obtain ⟨failure, after', firstly, same⟩ | ⟨innerStore, between, firstly, later⟩ :=
      execute_sequence_iff.1 h
    · cases same
      exact (ihFirst firstly).append_left.cons
    · rw [firstly]
      exact (ihSecond later).append_right.cons
  | assign target value block =>
    rw [Command.calls]
    have ended := Option.some.inj ((execute_assign target value).symm.trans h)
    rcases found : env.get? target.name with _ | cell | held
    · rw [found] at ended
      cases ended
      exact .target List.mem_cons_self found
    · rw [found] at ended
      cases result : evaluate env store value with
      | ok => rw [result] at ended; cases ended
      | error failure =>
        rw [result] at ended
        cases ended
        exact (Expr.raised result).cons
    · rw [found] at ended
      cases ended
      exact .constant List.mem_cons_self found
  | branch condition body block ih =>
    rw [Command.calls]
    obtain ⟨failure, tested, same⟩ | ⟨tested, later⟩ | ⟨-, same⟩ := execute_branch_iff.1 h
    · cases same
      exact Expr.raised_condition List.mem_cons_self rfl
        (List.subset_cons_of_subset _ (List.subset_append_left _ _)) tested
    · rw [tested]
      exact (ih later).append_right.cons
    · cases same
  | branchElse condition body otherwise block ihBody ihOtherwise =>
    rw [Command.calls]
    obtain ⟨failure, tested, same⟩ | ⟨tested, later⟩ | ⟨tested, later⟩ :=
      execute_branchElse_iff.1 h
    · cases same
      exact Expr.raised_condition List.mem_cons_self rfl
        (List.subset_cons_of_subset _ (List.subset_append_left _ _)) tested
    · rw [tested]
      exact (ihBody later).append_right.cons
    · rw [tested]
      exact (ihOtherwise later).append_right.cons
  | loop condition body block ih =>
    rw [Command.calls]
    exact rounds_raised List.mem_cons_self ih (List.subset_cons_self _ _) h
  | print value block =>
    have ended := Option.some.inj ((execute_print value).symm.trans h)
    cases result : evaluate env store value with
    | ok => rw [result] at ended; cases ended
    | error failure =>
      rw [result] at ended
      cases ended
      exact (Expr.raised result).cons
  | unknown =>
    cases h
    exact .unknownCommand List.mem_cons_self

end

end SmallImp
