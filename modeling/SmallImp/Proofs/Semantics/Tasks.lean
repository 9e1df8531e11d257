/-
# What the calls of a run are for

A run calls the interpreter for parts of the tree of its program only.  `tasks` lists what there is
to be called for in a tree, and the task of each call is one of them
(`Command.task_mem_of_mem_calls`).
-/
import SmallImp.Proofs.Semantics.Calls
import SmallImp.Tree.Sequence

namespace SmallImp

/-! ## The tasks of a tree -/

/-- An expression and those in it. -/
def Expr.tasks (e : Expr) : List Task :=
  .evaluate e :: match e with
    | .unary _ operand _ => operand.tasks
    | .binary left _ right _ => left.tasks ++ right.tasks
    | .parenthesis inner _ => inner.tasks
    | .value .. | .identifier .. | .unknown _ => []

/-- A declaration, those in it and their expressions. -/
def Declaration.tasks (declaration : Declaration) : List Task :=
  .elaborate declaration :: match declaration with
    | .variable _ _ value _ | .constant _ _ value _ => value.tasks
    | .group first second _ => first.tasks ++ second.tasks
    | .nil _ | .unknown _ => []

/-- A command, those in it, their declarations and their expressions. -/
def Command.tasks (command : Command) : List Task :=
  .execute command :: match command with
    | .scope declaration body _ => declaration.tasks ++ body.tasks
    | .sequence first second _ => first.tasks ++ second.tasks
    | .assign _ value _ | .print value _ => value.tasks
    | .branch condition body _ | .loop condition body _ => condition.tasks ++ body.tasks
    | .branchElse condition body otherwise _ =>
      condition.tasks ++ (body.tasks ++ otherwise.tasks)
    | .nil _ | .unknown _ => []

/-- The tasks of an item. -/
def Item.tasks : Item → List Task
  | .declaration here => here.tasks
  | .command here => here.tasks

/-! ## The tasks of calls -/

section
variable {env : Environment} {store : Store} {progress : Progress} {limit next : Nat}
variable {call : Call} {first second : List Call} {tasks tasks' : List Task}

/-- A call is the first one, for its task, or one of those after it. -/
theorem task_mem_cons {task : Task} (later : call ∈ first → call.task ∈ tasks)
    (mem : call ∈ ⟨task, env, store, next⟩ :: first) : call.task ∈ task :: tasks := by
  rcases List.mem_cons.1 mem with rfl | mem
  · exact List.mem_cons_self
  · exact List.mem_cons_of_mem _ (later mem)

theorem task_mem_append (firstly : call ∈ first → call.task ∈ tasks)
    (secondly : call ∈ second → call.task ∈ tasks') (mem : call ∈ first ++ second) :
    call.task ∈ tasks ++ tasks' := by
  rcases List.mem_append.1 mem with mem | mem
  · exact List.mem_append_left _ (firstly mem)
  · exact List.mem_append_right _ (secondly mem)

theorem Expr.task_mem_of_mem_calls {e : Expr} (mem : call ∈ e.calls env store next) :
    call.task ∈ e.tasks := by
  induction e with
  | value | identifier | unknown => exact task_mem_cons (fun mem => absurd mem List.not_mem_nil) mem
  | unary _ _ _ ih | parenthesis _ _ ih => exact task_mem_cons ih mem
  | binary left operator right block ihLeft ihRight =>
    refine task_mem_cons (task_mem_append ihLeft fun mem => ?_) mem
    split at mem
    · exact ihRight mem
    · cases mem

theorem Declaration.task_mem_of_mem_calls {declaration : Declaration}
    (mem : call ∈ declaration.calls env store progress) : call.task ∈ declaration.tasks := by
  induction declaration generalizing env store progress with
  | nil | unknown => exact task_mem_cons (fun mem => absurd mem List.not_mem_nil) mem
  | «variable» | constant => exact task_mem_cons Expr.task_mem_of_mem_calls mem
  | group first second _ ihFirst ihSecond =>
    refine task_mem_cons (task_mem_append ihFirst fun mem => ?_) mem
    split at mem
    · exact ihSecond mem
    · cases mem

/-- The rounds of a loop call for what its condition and its body do. -/
theorem task_mem_of_mem_roundsCalls {condition : Store → Except RunError Bool}
    {round : Store → Progress → Option (Attempt Store)}
    {conditionCalls roundCalls : Store → Progress → List Call}
    (tests : ∀ {store progress}, call ∈ conditionCalls store progress → call.task ∈ tasks)
    (bodies : ∀ {store progress}, call ∈ roundCalls store progress → call.task ∈ tasks')
    (mem : call ∈ roundsCalls condition round conditionCalls roundCalls limit store progress) :
    call.task ∈ tasks ++ tasks' := by
  induction limit generalizing store progress with
  | zero => cases mem
  | succ limit ih =>
    rw [roundsCalls] at mem
    rcases List.mem_append.1 mem with mem | mem
    · exact List.mem_append_left _ (tests mem)
    · split at mem
      · rcases List.mem_append.1 mem with mem | mem
        · exact List.mem_append_right _ (bodies mem)
        · split at mem
          · exact ih mem
          · cases mem
      · cases mem

/-- **The calls of a run are for parts of its tree.** -/
theorem Command.task_mem_of_mem_calls {command : Command}
    (mem : call ∈ command.calls limit env store progress) : call.task ∈ command.tasks := by
  induction command generalizing env store progress with
  | nil | unknown => exact task_mem_cons (fun mem => absurd mem List.not_mem_nil) mem
  | scope declaration body _ ih =>
    refine task_mem_cons (task_mem_append Declaration.task_mem_of_mem_calls fun mem => ?_) mem
    split at mem
    · exact ih mem
    · cases mem
  | sequence first second _ ihFirst ihSecond =>
    refine task_mem_cons (task_mem_append ihFirst fun mem => ?_) mem
    split at mem
    · exact ihSecond mem
    · cases mem
  | assign =>
    refine task_mem_cons (fun mem => ?_) mem
    split at mem
    · exact Expr.task_mem_of_mem_calls mem
    · cases mem
  | branch condition body _ ih =>
    refine task_mem_cons (task_mem_append Expr.task_mem_of_mem_calls fun mem => ?_) mem
    split at mem
    · exact ih mem
    · cases mem
  | branchElse condition body otherwise _ ihBody ihOtherwise =>
    refine task_mem_cons (task_mem_append Expr.task_mem_of_mem_calls fun mem => ?_) mem
    split at mem
    · exact List.mem_append_left _ (ihBody mem)
    · exact List.mem_append_right _ (ihOtherwise mem)
    · cases mem
  | loop condition body _ ih =>
    exact task_mem_cons (task_mem_of_mem_roundsCalls Expr.task_mem_of_mem_calls ih) mem
  | print => exact task_mem_cons Expr.task_mem_of_mem_calls mem

end

end SmallImp
