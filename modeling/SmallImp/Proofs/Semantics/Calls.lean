/-
# The calls of a run

A run is made of calls: to evaluate an expression, to elaborate a declaration and to execute a
command, each with the environment, the store and the index of the next location that it is
made with.  `calls` lists all of them in their order, those made on the way to an error and
those of a loop before it reaches the limit included.  How far a phrase gets is up to
`evaluate`, `elaborate` and `execute` themselves.
-/
import SmallImp.Run

namespace SmallImp

/-- What the interpreter is called for. -/
inductive Task where
  | evaluate (e : Expr)
  | elaborate (declaration : Declaration)
  | execute (command : Command)

/-- A call, with what is in hand when it is made. -/
structure Call where
  task : Task
  env : Environment
  store : Store
  next : Nat

/-- The calls to evaluate an expression. -/
def Expr.calls (env : Environment) (store : Store) (next : Nat) (e : Expr) : List Call :=
  ⟨.evaluate e, env, store, next⟩ :: match e with
    | .unary _ operand _ => operand.calls env store next
    | .binary left _ right _ =>
      left.calls env store next ++
        match evaluate env store left with
        | .ok _ => right.calls env store next
        | .error _ => []
    | .parenthesis inner _ => inner.calls env store next
    | .value .. | .identifier .. | .unknown _ => []

/-- The calls to elaborate a declaration. -/
def Declaration.calls (declaration : Declaration) (env : Environment) (store : Store)
    (progress : Progress) : List Call :=
  ⟨.elaborate declaration, env, store, progress.next⟩ :: match declaration with
    | .variable _ _ initial _ => initial.calls env store progress.next
    | .constant _ _ value _ => value.calls env store progress.next
    | .group first second _ =>
      first.calls env store progress ++
        match elaborate first env store progress with
        | ⟨.ok (env, store), progress⟩ => second.calls env store progress
        | ⟨.error _, _⟩ => []
    | .nil _ | .unknown _ => []

/-- The calls in the rounds of a loop, at most `limit` of them. -/
def roundsCalls (condition : Store → Except RunError Bool)
    (round : Store → Progress → Option (Attempt Store))
    (conditionCalls roundCalls : Store → Progress → List Call) :
    (limit : Nat) → Store → Progress → List Call
  | 0, _, _ => []
  | limit + 1, store, progress =>
    conditionCalls store progress ++
      match condition store with
      | .ok true =>
        roundCalls store progress ++
          match round store progress with
          | some ⟨.ok store, progress⟩ =>
            roundsCalls condition round conditionCalls roundCalls limit store progress
          | _ => []
      | _ => []

/-- The calls to execute a command. -/
def Command.calls (limit : Nat) (command : Command) (env : Environment) (store : Store)
    (progress : Progress) : List Call :=
  ⟨.execute command, env, store, progress.next⟩ :: match command with
    | .scope declaration body _ =>
      declaration.calls env store progress ++
        match elaborate declaration env store progress with
        | ⟨.ok (env, store), progress⟩ => body.calls limit env store progress
        | ⟨.error _, _⟩ => []
    | .sequence first second _ =>
      first.calls limit env store progress ++
        match execute limit first env store progress with
        | some ⟨.ok store, progress⟩ => second.calls limit env store progress
        | _ => []
    | .assign target value _ =>
      match env.get? target.name with
      | some (.location _) => value.calls env store progress.next
      | _ => []
    | .branch condition body _ =>
      condition.calls env store progress.next ++
        match evaluateCondition env store condition with
        | .ok true => body.calls limit env store progress
        | _ => []
    | .branchElse condition body otherwise _ =>
      condition.calls env store progress.next ++
        match evaluateCondition env store condition with
        | .ok true => body.calls limit env store progress
        | .ok false => otherwise.calls limit env store progress
        | .error _ => []
    | .loop condition body _ =>
      roundsCalls (fun store => evaluateCondition env store condition)
        (fun store progress => execute limit body env store progress)
        (fun store progress => condition.calls env store progress.next)
        (fun store progress => body.calls limit env store progress) limit store progress
    | .print value _ => value.calls env store progress.next
    | .nil _ | .unknown _ => []

end SmallImp
