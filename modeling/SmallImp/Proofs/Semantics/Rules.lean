/-
# Big-step rules

The meaning of programs as rules, one for each way that a phrase can come to a result or an
error: `Evaluates` for expressions, `Tests` for conditions, `Elaborates` for declarations and
`Executes` for commands.  Environments are handed down only, stores are threaded, and next to
the store the rules count the locations given out.  A command also prints: its `Outcome` has
the text that it prints, whether it ends well or not.

There is no limit in the rules.  A loop whose condition is true means its body followed by the
same loop, so a loop that goes on for ever has no outcome.

Expressions and declarations always come to an end, and `evaluate` and `elaborate` compute just
what the rules derive (`evaluates_iff`, `elaborates_iff`).
-/
import SmallImp.Run

namespace SmallImp

/-! ## The rules -/

/-- Whether two values are what an operator asks for. -/
def Suits (known : BinaryOperator) (a b : Value) : Prop :=
  match known.operandType with
  | none => b.ty = a.ty
  | some type => a.ty = type ∧ b.ty = type

/-- What an operator makes of one value; the block is the operand's. -/
inductive Applies (operator : Operator) (operand : Block) (a : Value) :
    Except RunError Value → Prop where
  | unknown : UnaryOperator.ofSymbol? operator.symbol = none →
      Applies operator operand a (.error (.unknownOperator operator.symbol operator.block))
  | wrongType {known} : UnaryOperator.ofSymbol? operator.symbol = some known →
      a.ty ≠ known.operandType →
      Applies operator operand a (.error (.wrongType known.operandType a.ty operand))
  | result {known} : UnaryOperator.ofSymbol? operator.symbol = some known →
      a.ty = known.operandType → Applies operator operand a (.ok (known.apply a))

/-- What an operator makes of two values; the blocks are the operands'. -/
inductive Combines (operator : Operator) (left right : Block) (a b : Value) :
    Except RunError Value → Prop where
  | unknown : BinaryOperator.ofSymbol? operator.symbol = none →
      Combines operator left right a b
        (.error (.unknownOperator operator.symbol operator.block))
  | differentTypes {known} : BinaryOperator.ofSymbol? operator.symbol = some known →
      known.operandType = none → b.ty ≠ a.ty →
      Combines operator left right a b (.error (.wrongType a.ty b.ty right))
  | wrongLeft {known type} : BinaryOperator.ofSymbol? operator.symbol = some known →
      known.operandType = some type → a.ty ≠ type →
      Combines operator left right a b (.error (.wrongType type a.ty left))
  | wrongRight {known type} : BinaryOperator.ofSymbol? operator.symbol = some known →
      known.operandType = some type → a.ty = type → b.ty ≠ type →
      Combines operator left right a b (.error (.wrongType type b.ty right))
  | zeroDivisor {known} : BinaryOperator.ofSymbol? operator.symbol = some known →
      Suits known a b → known.dividing = true → b.asNumber.isZero = true →
      Combines operator left right a b (.error (.divisionByZero operator.block))
  | fault {known fault} : BinaryOperator.ofSymbol? operator.symbol = some known →
      Suits known a b → (known.dividing = true → b.asNumber.isZero = false) →
      known.apply a b = .error fault →
      Combines operator left right a b (.error (.arithmetic fault))
  | result {known value} : BinaryOperator.ofSymbol? operator.symbol = some known →
      Suits known a b → (known.dividing = true → b.asNumber.isZero = false) →
      known.apply a b = .ok value →
      Combines operator left right a b (.ok value)

/-- The value of an expression, or its error. -/
inductive Evaluates (env : Environment) (store : Store) : Expr → Except RunError Value → Prop where
  | value {literal block} :
      Evaluates env store (.value literal block) (.ok (.ofLiteral literal.type literal.lexeme))
  | undefined {name block} : env.get? name.name = none →
      Evaluates env store (.identifier name block)
        (.error (.undefinedIdentifier name.name name.block))
  | constant {name block held} : env.get? name.name = some (.value held) →
      Evaluates env store (.identifier name block) (.ok held)
  | cell {name block cell held} : env.get? name.name = some (.location cell) →
      store.get? cell = some held →
      Evaluates env store (.identifier name block) (.ok held)
  | unbound {name block cell} : env.get? name.name = some (.location cell) →
      store.get? cell = none →
      Evaluates env store (.identifier name block) (.error (.unboundLocation cell))
  | operandError {operator operand block error} : Evaluates env store operand (.error error) →
      Evaluates env store (.unary operator operand block) (.error error)
  | unary {operator operand block a result} : Evaluates env store operand (.ok a) →
      Applies operator operand.block a result →
      Evaluates env store (.unary operator operand block) result
  | leftError {left operator right block error} : Evaluates env store left (.error error) →
      Evaluates env store (.binary left operator right block) (.error error)
  | rightError {left operator right block a error} : Evaluates env store left (.ok a) →
      Evaluates env store right (.error error) →
      Evaluates env store (.binary left operator right block) (.error error)
  | binary {left operator right block a b result} : Evaluates env store left (.ok a) →
      Evaluates env store right (.ok b) → Combines operator left.block right.block a b result →
      Evaluates env store (.binary left operator right block) result
  | parenthesis {inner block result} : Evaluates env store inner result →
      Evaluates env store (.parenthesis inner block) result
  | unknown {node} : Evaluates env store (.unknown node) (.error (.unknownExpression node.block))

/-- Whether a condition holds, or its error. -/
inductive Tests (env : Environment) (store : Store) (condition : Expr) :
    Except RunError Bool → Prop where
  | error {error} : Evaluates env store condition (.error error) →
      Tests env store condition (.error error)
  | wrongType {value} : Evaluates env store condition (.ok value) → value.ty ≠ .boolean →
      Tests env store condition (.error (.wrongType .boolean value.ty condition.block))
  | holds {truth} : Evaluates env store condition (.ok (.boolean truth)) →
      Tests env store condition (.ok truth)

/-- The environment and the store after a declaration, or its error, and the index of the next
location. -/
inductive Elaborates : Declaration → Environment → Store → Nat →
    Except RunError (Environment × Store) → Nat → Prop where
  | nil {block env store next} : Elaborates (.nil block) env store next (.ok (env, store)) next
  | variableError {name type initial block env store next error} :
      Evaluates env store initial (.error error) →
      Elaborates (.variable name type initial block) env store next (.error error) next
  | variableBound {name type initial block env store next value} :
      Evaluates env store initial (.ok value) →
      Elaborates (.variable name type initial block) env store next
        (.ok (env.extend name.name (.location ⟨next⟩), store.extend ⟨next⟩ value)) (next + 1)
  | constantError {name type expression block env store next error} :
      Evaluates env store expression (.error error) →
      Elaborates (.constant name type expression block) env store next (.error error) next
  | constantBound {name type expression block env store next value} :
      Evaluates env store expression (.ok value) →
      Elaborates (.constant name type expression block) env store next
        (.ok (env.extend name.name (.value value), store)) next
  | firstError {first second block env store next error after} :
      Elaborates first env store next (.error error) after →
      Elaborates (.group first second block) env store next (.error error) after
  | group {first second block env store next innerEnv innerStore between result after} :
      Elaborates first env store next (.ok (innerEnv, innerStore)) between →
      Elaborates second innerEnv innerStore between result after →
      Elaborates (.group first second block) env store next result after
  | unknown {node env store next} :
      Elaborates (.unknown node) env store next (.error (.unknownDeclaration node.block)) next

/-- What comes of a command: the store or an error, the text printed, and the index of the next
location. -/
structure Outcome where
  result : Except RunError Store
  output : String
  next : Nat

/-- An outcome with a text printed before. -/
def Outcome.after (outcome : Outcome) (output : String) : Outcome :=
  { outcome with output := output ++ outcome.output }

/-- The outcome of a command. -/
inductive Executes : Command → Environment → Store → Nat → Outcome → Prop where
  | nil {block env store next} : Executes (.nil block) env store next ⟨.ok store, "", next⟩
  | scopeError {declaration body block env store next error after} :
      Elaborates declaration env store next (.error error) after →
      Executes (.scope declaration body block) env store next ⟨.error error, "", after⟩
  | scope {declaration body block env store next innerEnv innerStore between outcome} :
      Elaborates declaration env store next (.ok (innerEnv, innerStore)) between →
      Executes body innerEnv innerStore between outcome →
      Executes (.scope declaration body block) env store next outcome
  | firstError {first second block env store next error output after} :
      Executes first env store next ⟨.error error, output, after⟩ →
      Executes (.sequence first second block) env store next ⟨.error error, output, after⟩
  | sequence {first second block env store next innerStore output between outcome} :
      Executes first env store next ⟨.ok innerStore, output, between⟩ →
      Executes second env innerStore between outcome →
      Executes (.sequence first second block) env store next (outcome.after output)
  | undefined {target value block env store next} : env.get? target.name = none →
      Executes (.assign target value block) env store next
        ⟨.error (.undefinedIdentifier target.name target.block), "", next⟩
  | constant {target value block env store next held} :
      env.get? target.name = some (.value held) →
      Executes (.assign target value block) env store next
        ⟨.error (.constantReassignment target.name block), "", next⟩
  | assignError {target value block env store next cell error} :
      env.get? target.name = some (.location cell) → Evaluates env store value (.error error) →
      Executes (.assign target value block) env store next ⟨.error error, "", next⟩
  | assign {target value block env store next cell held} :
      env.get? target.name = some (.location cell) → Evaluates env store value (.ok held) →
      Executes (.assign target value block) env store next ⟨.ok (store.extend cell held), "", next⟩
  | branchError {condition body block env store next error} :
      Tests env store condition (.error error) →
      Executes (.branch condition body block) env store next ⟨.error error, "", next⟩
  | branchTrue {condition body block env store next outcome} :
      Tests env store condition (.ok true) → Executes body env store next outcome →
      Executes (.branch condition body block) env store next outcome
  | branchFalse {condition body block env store next} :
      Tests env store condition (.ok false) →
      Executes (.branch condition body block) env store next ⟨.ok store, "", next⟩
  | branchElseError {condition body otherwise block env store next error} :
      Tests env store condition (.error error) →
      Executes (.branchElse condition body otherwise block) env store next ⟨.error error, "", next⟩
  | branchElseTrue {condition body otherwise block env store next outcome} :
      Tests env store condition (.ok true) → Executes body env store next outcome →
      Executes (.branchElse condition body otherwise block) env store next outcome
  | branchElseFalse {condition body otherwise block env store next outcome} :
      Tests env store condition (.ok false) → Executes otherwise env store next outcome →
      Executes (.branchElse condition body otherwise block) env store next outcome
  | loopError {condition body block env store next error} :
      Tests env store condition (.error error) →
      Executes (.loop condition body block) env store next ⟨.error error, "", next⟩
  | loopFalse {condition body block env store next} :
      Tests env store condition (.ok false) →
      Executes (.loop condition body block) env store next ⟨.ok store, "", next⟩
  /-- The body, and then the same loop again. -/
  | loopTrue {condition body block env store next outcome} :
      Tests env store condition (.ok true) →
      Executes (.sequence body (.loop condition body block) block) env store next outcome →
      Executes (.loop condition body block) env store next outcome
  | printError {value block env store next error} : Evaluates env store value (.error error) →
      Executes (.print value block) env store next ⟨.error error, "", next⟩
  | print {value block env store next held} : Evaluates env store value (.ok held) →
      Executes (.print value block) env store next ⟨.ok store, held.text ++ "\n", next⟩
  | unknown {node env store next} :
      Executes (.unknown node) env store next ⟨.error (.unknownCommand node.block), "", next⟩

/-! ## Expressions -/

theorem applies_iff {operator : Operator} {operand : Block} {a : Value}
    {result : Except RunError Value} :
    Applies operator operand a result ↔ operator.applyUnary a operand = result := by
  constructor
  · intro h
    cases h <;> simp [Operator.applyUnary, Value.expect, Except.map, *]
  · rintro rfl
    unfold Operator.applyUnary
    split
    case h_1 missing => exact .unknown missing
    case h_2 known found =>
      unfold Value.expect
      split
      case isTrue suits => exact .result found suits
      case isFalse wrong => exact .wrongType found wrong

/-- An operator checks whether its operands are what it asks for. -/
theorem Suits.check {known : BinaryOperator} {a b : Value} (h : Suits known a b)
    (left right : Block) : known.check a b left right = .ok () := by
  unfold Suits at h
  unfold BinaryOperator.check
  cases type : known.operandType <;> rw [type] at h <;> simp [Value.expect, Except.bind, h]

/-- What an operator makes of operands that it asks for. -/
theorem Suits.applyBinary {operator : Operator} {known : BinaryOperator} {a b : Value}
    (found : BinaryOperator.ofSymbol? operator.symbol = some known) (h : Suits known a b)
    (left right : Block) :
    operator.applyBinary a b left right =
      if known.dividing && b.asNumber.isZero then .error (.divisionByZero operator.block)
      else (known.apply a b).mapError .arithmetic := by
  simp only [Operator.applyBinary, found, h.check, Except.bind]

theorem combines_of_suits {operator : Operator} {left right : Block} {known : BinaryOperator}
    {a b : Value} (found : BinaryOperator.ofSymbol? operator.symbol = some known)
    (suits : Suits known a b) :
    Combines operator left right a b (operator.applyBinary a b left right) := by
  rw [suits.applyBinary found]
  split
  case isTrue zero =>
    obtain ⟨dividing, zero⟩ := Bool.and_eq_true_iff.1 zero
    exact .zeroDivisor found suits dividing zero
  case isFalse nonzero =>
    have nonzero (dividing : known.dividing = true) : b.asNumber.isZero = false := by
      simpa [dividing] using nonzero
    cases applied : known.apply a b with
    | error fault => exact .fault found suits nonzero applied
    | ok value => exact .result found suits nonzero applied

theorem combines_applyBinary (operator : Operator) (left right : Block) (a b : Value) :
    Combines operator left right a b (operator.applyBinary a b left right) := by
  cases found : BinaryOperator.ofSymbol? operator.symbol with
  | none =>
    rw [Operator.applyBinary, found]
    exact .unknown found
  | some known =>
    by_cases suits : Suits known a b
    · exact combines_of_suits found suits
    · cases type : known.operandType with
      | none =>
        have other : b.ty ≠ a.ty := by simpa [Suits, type] using suits
        have : operator.applyBinary a b left right = .error (.wrongType a.ty b.ty right) := by
          simp [Operator.applyBinary, BinaryOperator.check, Value.expect, Except.bind, found,
            type, other]
        rw [this]
        exact .differentTypes found type other
      | some type' =>
        by_cases same : a.ty = type'
        · have other : b.ty ≠ type' := by simpa [Suits, type, same] using suits
          have : operator.applyBinary a b left right = .error (.wrongType type' b.ty right) := by
            simp [Operator.applyBinary, BinaryOperator.check, Value.expect, Except.bind, found,
              type, same, other]
          rw [this]
          exact .wrongRight found type same other
        · have : operator.applyBinary a b left right = .error (.wrongType type' a.ty left) := by
            simp [Operator.applyBinary, BinaryOperator.check, Value.expect, Except.bind, found,
              type, same]
          rw [this]
          exact .wrongLeft found type same

theorem combines_iff {operator : Operator} {left right : Block} {a b : Value}
    {result : Except RunError Value} :
    Combines operator left right a b result ↔ operator.applyBinary a b left right = result := by
  constructor
  · intro h
    cases h with
    | unknown missing => rw [Operator.applyBinary, missing]
    | differentTypes found type other | wrongLeft found type other =>
      simp [Operator.applyBinary, BinaryOperator.check, Value.expect, Except.bind, *]
    | wrongRight found type same other =>
      simp [Operator.applyBinary, BinaryOperator.check, Value.expect, Except.bind, *]
    | zeroDivisor found suits dividing zero => simp [suits.applyBinary found, dividing, zero]
    | @fault known _ found suits nonzero applied | @result known _ found suits nonzero applied =>
      rw [suits.applyBinary found, if_neg, applied]
      · rfl
      · cases dividing : known.dividing <;> simp [nonzero, dividing]
  · rintro rfl
    exact combines_applyBinary operator left right a b

theorem evaluates_evaluate (env : Environment) (store : Store) (e : Expr) :
    Evaluates env store e (evaluate env store e) := by
  induction e with
  | value literal block => exact .value
  | identifier name block =>
    rw [evaluate, resolve]
    cases found : env.get? name.name with
    | none => exact .undefined found
    | some binding =>
      cases binding with
      | value held => exact .constant found
      | location cell =>
        simp only [Except.bind, Binding.read]
        cases stored : store.get? cell with
        | none => exact .unbound found stored
        | some held => exact .cell found stored
  | unary operator operand block ih =>
    rw [evaluate]
    cases result : evaluate env store operand with
    | error error => exact .operandError (result ▸ ih)
    | ok a => exact .unary (result ▸ ih) (applies_iff.2 rfl)
  | binary left operator right block ihLeft ihRight =>
    rw [evaluate]
    cases leftResult : evaluate env store left with
    | error error => exact .leftError (leftResult ▸ ihLeft)
    | ok a =>
      cases rightResult : evaluate env store right with
      | error error => exact .rightError (leftResult ▸ ihLeft) (rightResult ▸ ihRight)
      | ok b => exact .binary (leftResult ▸ ihLeft) (rightResult ▸ ihRight) (combines_iff.2 rfl)
  | parenthesis inner block ih => exact .parenthesis ih
  | unknown node => exact .unknown

/-- **Evaluation computes the value that the rules derive.** -/
theorem evaluates_iff {env : Environment} {store : Store} {e : Expr}
    {result : Except RunError Value} :
    Evaluates env store e result ↔ evaluate env store e = result := by
  constructor
  · intro h
    induction h with
    | value => rfl
    | undefined missing => simp [evaluate, resolve, missing, Except.bind]
    | constant found => simp [evaluate, resolve, found, Except.bind, Binding.read]
    | cell found stored | unbound found stored =>
      simp [evaluate, resolve, found, Except.bind, Binding.read, stored]
    | operandError _ ih => simp [evaluate, ih, Except.bind]
    | unary _ applies ih => simp [evaluate, ih, Except.bind, applies_iff.1 applies]
    | leftError _ ih => simp [evaluate, ih, Except.bind]
    | rightError _ _ ihLeft ihRight => simp [evaluate, ihLeft, ihRight, Except.bind]
    | binary _ _ combines ihLeft ihRight =>
      simp [evaluate, ihLeft, ihRight, Except.bind, combines_iff.1 combines]
    | parenthesis _ ih => rw [evaluate, ih]
    | unknown => rfl
  · rintro rfl
    exact evaluates_evaluate env store e

theorem tests_iff {env : Environment} {store : Store} {condition : Expr}
    {result : Except RunError Bool} :
    Tests env store condition result ↔ evaluateCondition env store condition = result := by
  constructor
  · intro h
    cases h with
    | error h => simp [evaluateCondition, evaluates_iff.1 h, Except.bind]
    | wrongType h other =>
      simp [evaluateCondition, evaluates_iff.1 h, Except.bind, Value.expect, other, Except.map]
    | holds h =>
      simp [evaluateCondition, evaluates_iff.1 h, Except.bind, Value.expect, Value.ty,
        Except.map, Value.asBoolean]
  · rintro rfl
    unfold evaluateCondition
    cases result : evaluate env store condition with
    | error error => exact .error (evaluates_iff.2 result)
    | ok value =>
      cases value with
      | number value => exact .wrongType (evaluates_iff.2 result) nofun
      | boolean truth => exact .holds (evaluates_iff.2 result)

/-! ## Declarations -/

theorem elaborates_elaborate (declaration : Declaration) (env : Environment) (store : Store)
    (progress : Progress) :
    Elaborates declaration env store progress.next
      (elaborate declaration env store progress).result
      (elaborate declaration env store progress).progress.next := by
  induction declaration generalizing env store progress with
  | nil block => exact .nil
  | «variable» name type initial block =>
    rw [elaborate]
    cases result : evaluate env store initial with
    | error error => exact .variableError (evaluates_iff.2 result)
    | ok value => exact .variableBound (evaluates_iff.2 result)
  | constant name type expression block =>
    rw [elaborate]
    cases result : evaluate env store expression with
    | error error => exact .constantError (evaluates_iff.2 result)
    | ok value => exact .constantBound (evaluates_iff.2 result)
  | group first second block ihFirst ihSecond =>
    have firstly := ihFirst env store progress
    rw [elaborate]
    cases attempt : elaborate first env store progress with
    | mk result between =>
      rw [attempt] at firstly
      cases result with
      | error error => exact .firstError firstly
      | ok state => exact .group firstly (ihSecond state.1 state.2 between)
  | unknown node => exact .unknown

theorem elaborates_of_eq {declaration : Declaration} {env : Environment} {store : Store}
    {progress after : Progress} {result : Except RunError (Environment × Store)}
    (h : elaborate declaration env store progress = ⟨result, after⟩) :
    Elaborates declaration env store progress.next result after.next := by
  have elaborates := elaborates_elaborate declaration env store progress
  rwa [h] at elaborates

/-- **Elaboration computes what the rules derive.** -/
theorem elaborates_iff {declaration : Declaration} {env : Environment} {store : Store}
    {progress : Progress} {result : Except RunError (Environment × Store)} {after : Nat} :
    Elaborates declaration env store progress.next result after ↔
      (elaborate declaration env store progress).result = result ∧
        (elaborate declaration env store progress).progress.next = after := by
  constructor
  · intro h
    generalize eq : progress.next = next at h
    induction h generalizing progress with
    | nil => exact ⟨rfl, eq⟩
    | variableError h | constantError h =>
      simp [elaborate, evaluates_iff.1 h, eq]
    | variableBound h =>
      simp [elaborate, evaluates_iff.1 h, eq, Progress.allocate, Progress.note]
    | constantBound h =>
      simp [elaborate, evaluates_iff.1 h, eq, Progress.note]
    | @firstError first _ _ env store _ _ _ _ ih =>
      obtain ⟨result, after⟩ := ih eq
      cases attempt : elaborate first env store progress with
      | mk result' between =>
        rw [attempt] at result after
        dsimp only at result after
        subst result
        simp [elaborate, attempt, after]
    | @group first second _ env store _ _ _ _ _ _ _ _ ihFirst ihSecond =>
      obtain ⟨result, between⟩ := ihFirst eq
      cases attempt : elaborate first env store progress with
      | mk result' progress' =>
        rw [attempt] at result between
        dsimp only at result between
        subst result
        simpa [elaborate, attempt] using ihSecond between
    | unknown => exact ⟨rfl, eq⟩
  · rintro ⟨rfl, rfl⟩
    exact elaborates_elaborate declaration env store progress

end SmallImp
