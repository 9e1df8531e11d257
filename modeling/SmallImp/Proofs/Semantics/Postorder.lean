/-
# Evaluation on a stack

The nodes of an expression in post-order are its parts from left to right, each of them after
its operands (`Expr.postorder`).  A machine with a stack of values takes them one after the
other: a literal or a name pushes its value, an operator pops its operands, makes its checks in
their order and pushes its result, and a parenthesis does nothing.  The first check that fails
ends the run with its error.

Evaluation gives what the machine gives (`StackMachine.run_postorder`).  So every part of an
expression is evaluated, whatever the values of the parts before it, and of several errors that
of the first node in post-order is the one that comes out.
-/
import SmallImp.Run

namespace SmallImp

/-- The nodes of an expression in post-order. -/
def Expr.postorder : Expr → List Expr
  | .value literal block => [.value literal block]
  | .identifier name block => [.identifier name block]
  | .unary operator operand block => operand.postorder ++ [.unary operator operand block]
  | .binary left operator right block =>
    left.postorder ++ right.postorder ++ [.binary left operator right block]
  | .parenthesis inner block => inner.postorder ++ [.parenthesis inner block]
  | .unknown node => [.unknown node]

namespace StackMachine

/-! ## The machine -/

/-- A condition that has to hold, and the error where it does not. -/
structure Check where
  holds : Bool
  error : RunError

/-- The error of the first check that fails. -/
def failure? (checks : List Check) : Option RunError :=
  (checks.find? fun check => !check.holds).map Check.error

/-- What an operator checks of one operand. -/
def unaryChecks (known : UnaryOperator) (a : Value) (operand : Block) : List Check :=
  [⟨a.ty = known.operandType, .wrongType known.operandType a.ty operand⟩]

/-- What an operator checks of two operands: the left type and then the right type, or only that
they agree where it has no type of its own, and last that it does not divide by zero. -/
def binaryChecks (known : BinaryOperator) (a b : Value) (left operator right : Block) :
    List Check :=
  (match known.operandType with
    | none => [⟨a.ty = b.ty, .wrongType a.ty b.ty right⟩]
    | some type =>
      [⟨a.ty = type, .wrongType type a.ty left⟩, ⟨b.ty = type, .wrongType type b.ty right⟩]) ++
    [⟨!(known.dividing && b.asNumber.isZero), .divisionByZero operator⟩]

/-- What a node makes of the stack, or its error; nothing where an operand is missing. -/
def step (env : Environment) (store : Store) :
    Expr → List Value → Option (Except RunError (List Value))
  | .value literal _, stack => some (.ok (.ofLiteral literal.type literal.lexeme :: stack))
  | .identifier name _, stack =>
    some <| match env.get? name.name with
      | none => .error (.undefinedIdentifier name.name name.block)
      | some (.value held) => .ok (held :: stack)
      | some (.location cell) =>
        match store.get? cell with
        | none => .error (.unboundLocation cell)
        | some held => .ok (held :: stack)
  | .unary operator operand _, a :: stack =>
    some <| match UnaryOperator.ofSymbol? operator.symbol with
      | none => .error (.unknownOperator operator.symbol operator.block)
      | some known =>
        match failure? (unaryChecks known a operand.block) with
        | some error => .error error
        | none => .ok (known.apply a :: stack)
  | .binary left operator right _, b :: a :: stack =>
    some <| match BinaryOperator.ofSymbol? operator.symbol with
      | none => .error (.unknownOperator operator.symbol operator.block)
      | some known =>
        match failure? (binaryChecks known a b left.block operator.block right.block) with
        | some error => .error error
        | none =>
          match known.apply a b with
          | .error fault => .error (.arithmetic fault)
          | .ok value => .ok (value :: stack)
  | .parenthesis .., stack => some (.ok stack)
  | .unknown node, _ => some (.error (.unknownExpression node.block))
  | .unary .., [] | .binary .., [] | .binary .., [_] => none

/-- Takes nodes one after the other, up to the first error. -/
def run (env : Environment) (store : Store) :
    List Expr → List Value → Option (Except RunError (List Value))
  | [], stack => some (.ok stack)
  | node :: rest, stack =>
    match step env store node stack with
    | some (.ok stack) => run env store rest stack
    | other => other

@[simp]
theorem failure?_nil : failure? [] = none := rfl

@[simp]
theorem failure?_cons (check : Check) (rest : List Check) :
    failure? (check :: rest) = if check.holds then failure? rest else some check.error := by
  cases holds : check.holds <;> simp [failure?, holds]

/-- The first check that fails is one of the types, or else that of the divisor. -/
theorem failure?_binaryChecks (known : BinaryOperator) (a b : Value)
    (left operator right : Block) :
    failure? (binaryChecks known a b left operator right) =
      match known.check a b left right with
      | .error error => some error
      | .ok () =>
        if known.dividing && b.asNumber.isZero then some (.divisionByZero operator) else none := by
  unfold binaryChecks BinaryOperator.check Value.expect
  cases known.operandType with
  | none =>
    by_cases same : b.ty = a.ty
    · cases known.dividing && b.asNumber.isZero <;> simp [same]
    · simp [same, Ne.symm same]
  | some type =>
    by_cases here : a.ty = type
    · by_cases there : b.ty = type
      · cases known.dividing && b.asNumber.isZero <;> simp [here, there, Except.bind]
      · simp [here, there, Except.bind]
    · simp [here, Except.bind]

section
variable {env : Environment} {store : Store}

/-! ## Steps and runs -/

/-- A name pushes its value. -/
theorem step_identifier (name : Identifier) (block : Block) (stack : List Value) :
    step env store (.identifier name block) stack =
      some ((evaluate env store (.identifier name block)).map (· :: stack)) := by
  rw [step, evaluate, resolve]
  cases env.get? name.name with
  | none => rfl
  | some binding =>
    cases binding with
    | value held => rfl
    | location cell =>
      simp only [Except.bind, Binding.read]
      cases store.get? cell <;> rfl

/-- An operator with one operand replaces it by the result. -/
theorem step_unary (operator : Operator) (operand : Expr) (block : Block) (a : Value)
    (stack : List Value) :
    step env store (.unary operator operand block) (a :: stack) =
      some ((operator.applyUnary a operand.block).map (· :: stack)) := by
  rw [step, Operator.applyUnary]
  cases UnaryOperator.ofSymbol? operator.symbol with
  | none => rfl
  | some known =>
    by_cases type : a.ty = known.operandType <;>
      simp [unaryChecks, Value.expect, Except.map, type]

/-- An operator with two operands replaces them by the result. -/
theorem step_binary (left : Expr) (operator : Operator) (right : Expr) (block : Block)
    (a b : Value) (stack : List Value) :
    step env store (.binary left operator right block) (b :: a :: stack) =
      some ((operator.applyBinary a b left.block right.block).map (· :: stack)) := by
  rw [step, Operator.applyBinary]
  cases BinaryOperator.ofSymbol? operator.symbol with
  | none => rfl
  | some known =>
    dsimp only
    rw [failure?_binaryChecks]
    cases known.check a b left.block right.block with
    | error error => rfl
    | ok checked =>
      by_cases zero : (known.dividing && b.asNumber.isZero) = true
      · simp [Except.bind, Except.map, zero]
      · simp only [Except.bind, zero]
        cases known.apply a b <;> rfl

theorem run_cons (node : Expr) (rest : List Expr) (stack : List Value) :
    run env store (node :: rest) stack =
      match step env store node stack with
      | some (.ok stack) => run env store rest stack
      | other => other := rfl

/-- A run goes on where the nodes before leave the stack, if they do. -/
theorem run_append (before rest : List Expr) (stack : List Value) :
    run env store (before ++ rest) stack =
      match run env store before stack with
      | some (.ok stack) => run env store rest stack
      | other => other := by
  induction before generalizing stack with
  | nil => rfl
  | cons node before ih =>
    rw [List.cons_append, run_cons, run_cons]
    cases step env store node stack with
    | none => rfl
    | some result =>
      cases result with
      | error error => rfl
      | ok stack => exact ih stack

/-- **The nodes of an expression push its value**, whatever is on the stack already, or fail with
its error. -/
theorem run_postorder (e : Expr) (stack : List Value) :
    run env store e.postorder stack = some ((evaluate env store e).map (· :: stack)) := by
  -- the last node of an expression is the expression itself
  have last (node : Expr) (stack : List Value) :
      run env store [node] stack = step env store node stack := by
    rw [run_cons]
    cases step env store node stack with
    | none => rfl
    | some result => cases result <;> rfl
  induction e generalizing stack with
  | value literal block => rfl
  | identifier name block => rw [Expr.postorder, last, step_identifier]
  | unary operator operand block ih =>
    rw [Expr.postorder, run_append, ih, evaluate]
    cases evaluate env store operand with
    | error error => rfl
    | ok a => exact (last _ _).trans (step_unary operator operand block a stack)
  | binary left operator right block ihLeft ihRight =>
    rw [Expr.postorder, run_append, run_append, ihLeft, evaluate]
    cases evaluate env store left with
    | error error => rfl
    | ok a =>
      simp only [Except.map, ihRight]
      cases evaluate env store right with
      | error error => rfl
      | ok b => exact (last _ _).trans (step_binary left operator right block a b stack)
  | parenthesis inner block ih =>
    rw [Expr.postorder, run_append, ih, evaluate]
    cases evaluate env store inner with
    | error error => rfl
    | ok a => rfl
  | unknown node => rfl

/-! ## Errors -/

/-- A node that fails with an error after the nodes before it have not. -/
def FailsAt (env : Environment) (store : Store) (before : List Expr) (node : Expr)
    (error : RunError) : Prop :=
  ∃ stack, run env store before [] = some (.ok stack) ∧
    step env store node stack = some (.error error)

/-- A run fails at one of its nodes. -/
theorem run_error_iff {nodes : List Expr} {stack : List Value} {error : RunError} :
    run env store nodes stack = some (.error error) ↔
      ∃ before node after between, nodes = before ++ node :: after ∧
        run env store before stack = some (.ok between) ∧
        step env store node between = some (.error error) := by
  constructor
  · intro h
    induction nodes generalizing stack with
    | nil => cases h
    | cons node rest ih =>
      rw [run_cons] at h
      cases stepped : step env store node stack with
      | none => rw [stepped] at h; cases h
      | some result =>
        rw [stepped] at h
        cases result with
        | error error' =>
          cases h
          exact ⟨[], node, rest, stack, rfl, rfl, stepped⟩
        | ok next =>
          obtain ⟨before, failing, after, between, rfl, ran, fails⟩ := ih h
          refine ⟨node :: before, failing, after, between, rfl, ?_, fails⟩
          rw [run_cons, stepped]
          exact ran
  · rintro ⟨before, node, after, between, rfl, ran, fails⟩
    rw [run_append, ran]
    dsimp only
    rw [run_cons, fails]

/-- The error of an expression is that of the first node that fails. -/
theorem evaluate_error_iff {e : Expr} {error : RunError} :
    evaluate env store e = .error error ↔
      ∃ before node after, e.postorder = before ++ node :: after ∧
        FailsAt env store before node error := by
  have ran : run env store e.postorder [] = some (.error error) ↔
      evaluate env store e = .error error := by
    rw [run_postorder]
    cases evaluate env store e <;> simp [Except.map]
  rw [← ran, run_error_iff]
  constructor
  · rintro ⟨before, node, after, between, split, fails⟩
    exact ⟨before, node, after, split, between, fails⟩
  · rintro ⟨before, node, after, split, between, fails⟩
    exact ⟨before, node, after, between, split, fails⟩

/-- A name that is not bound is undefined, unless a node before it fails. -/
theorem evaluate_unbound {e : Expr} {before after : List Expr} {name : Identifier} {block : Block}
    (split : e.postorder = before ++ .identifier name block :: after)
    (missing : env.get? name.name = none) :
    ∃ error, evaluate env store e = .error error ∧
      (error = .undefinedIdentifier name.name name.block ∨
        ∃ earlier node later, before = earlier ++ node :: later ∧
          FailsAt env store earlier node error) := by
  cases ran : run env store before [] with
  | none =>
    have whole : run env store e.postorder [] = _ := run_postorder e []
    rw [split, run_append, ran] at whole
    cases whole
  | some result =>
    cases result with
    | ok stack =>
      have fails : FailsAt env store before (.identifier name block)
          (.undefinedIdentifier name.name name.block) :=
        ⟨stack, ran, by rw [step, missing]⟩
      exact ⟨_, evaluate_error_iff.2 ⟨before, _, after, split, fails⟩, .inl rfl⟩
    | error error =>
      obtain ⟨earlier, node, later, between, rfl, ran', stepped⟩ := run_error_iff.1 ran
      have fails : FailsAt env store earlier node error := ⟨between, ran', stepped⟩
      have split' :
          e.postorder = earlier ++ node :: (later ++ .identifier name block :: after) := by
        rw [split, List.append_assoc, List.cons_append]
      exact ⟨error, evaluate_error_iff.2 ⟨earlier, node, _, split', fails⟩,
        .inr ⟨earlier, node, later, rfl, fails⟩⟩

/-- An operator with two operands has a value only where both of them have. -/
theorem exists_values_of_binary {left right : Expr} {operator : Operator} {block : Block}
    {value : Value} (h : evaluate env store (.binary left operator right block) = .ok value) :
    ∃ a b, evaluate env store left = .ok a ∧ evaluate env store right = .ok b := by
  rw [evaluate] at h
  cases first : evaluate env store left with
  | error error => rw [first] at h; cases h
  | ok a =>
    rw [first] at h
    cases second : evaluate env store right with
    | error error => rw [Except.bind, second] at h; cases h
    | ok b => exact ⟨a, b, rfl, rfl⟩

/-- An expression has a value only where all its parts have. -/
theorem exists_value_of_mem {e part : Expr} {value : Value}
    (h : evaluate env store e = .ok value) (mem : part ∈ e.postorder) :
    ∃ held, evaluate env store part = .ok held := by
  induction e generalizing value with
  | value | identifier | unknown => exact ⟨value, List.mem_singleton.1 mem ▸ h⟩
  | unary operator operand block ih =>
    obtain inside | here := List.mem_append.1 mem
    · cases result : evaluate env store operand with
      | error error => rw [evaluate, result] at h; cases h
      | ok a => exact ih result inside
    · exact ⟨value, List.mem_singleton.1 here ▸ h⟩
  | binary left operator right block ihLeft ihRight =>
    obtain ⟨a, b, first, second⟩ := exists_values_of_binary h
    obtain inside | here := List.mem_append.1 mem
    · obtain inLeft | inRight := List.mem_append.1 inside
      · exact ihLeft first inLeft
      · exact ihRight second inRight
    · exact ⟨value, List.mem_singleton.1 here ▸ h⟩
  | parenthesis inner block ih =>
    obtain inside | here := List.mem_append.1 mem
    · exact ih h inside
    · exact ⟨value, List.mem_singleton.1 here ▸ h⟩

end

/-- **Evaluation is strict, from left to right, and the first error wins.**  It gives what the
stack machine makes of the nodes in post-order, and its error is that of the first node that
fails.  An expression has a value only where each of its parts has one, so no operator leaves out
its right operand.  With a name that is not bound there is no value: the name is undefined, unless
a node before it fails. -/
theorem evaluate_eq_run (e : Expr) (env : Environment) (store : Store) :
    run env store e.postorder [] = some ((evaluate env store e).map fun value => [value]) ∧
      (∀ error, evaluate env store e = .error error ↔
        ∃ before node after, e.postorder = before ++ node :: after ∧
          FailsAt env store before node error) ∧
      (∀ value, evaluate env store e = .ok value →
        ∀ part ∈ e.postorder, ∃ held, evaluate env store part = .ok held) ∧
      (∀ left operator right block error, .binary left operator right block ∈ e.postorder →
        evaluate env store right = .error error → ∃ error', evaluate env store e = .error error') ∧
      ∀ before name block after, e.postorder = before ++ .identifier name block :: after →
        env.get? name.name = none →
        ∃ error, evaluate env store e = .error error ∧
          (error = .undefinedIdentifier name.name name.block ∨
            ∃ earlier node later, before = earlier ++ node :: later ∧
              FailsAt env store earlier node error) := by
  refine ⟨run_postorder e [], fun error => evaluate_error_iff,
    fun value h part mem => exists_value_of_mem h mem, ?_,
    fun before name block after split missing => evaluate_unbound split missing⟩
  intro left operator right block error mem fails
  cases result : evaluate env store e with
  | error error' => exact ⟨error', rfl⟩
  | ok value =>
    obtain ⟨held, here⟩ := exists_value_of_mem result mem
    obtain ⟨a, b, -, there⟩ := exists_values_of_binary here
    rw [fails] at there
    cases there

/-- `false && x` without a binding for `x`: the left operand settles nothing, and the name is
undefined. -/
theorem evaluate_eq_run_and :
    let settled : Expr := .value ⟨.boolean, "false", .origin⟩ .origin
    let x : Expr := .identifier ⟨"x", .origin⟩ .origin
    let both : Expr := .binary settled ⟨.binary, "&&", .origin⟩ x .origin
    let env : Environment := .empty
    both.postorder = [settled] ++ x :: [both] ∧ env.get? "x" = none ∧
      evaluate env .empty both = .error (.undefinedIdentifier "x" .origin) := by
  intro settled x both env
  obtain ⟨-, -, -, -, unbound⟩ := evaluate_eq_run both env .empty
  obtain ⟨error, failed, rfl | ⟨earlier, node, later, split, stack, -, fails⟩⟩ :=
    unbound [settled] ⟨"x", .origin⟩ .origin [both] rfl rfl
  · exact ⟨rfl, rfl, failed⟩
  · cases earlier with
    | nil => cases split; cases fails
    | cons _ rest => cases rest <;> cases split

end StackMachine

end SmallImp
