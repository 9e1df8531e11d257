/-
# Running programs

Expressions are evaluated, declarations elaborated and commands executed, over an environment
and a store.  A command changes the store only; the bindings of a declaration reach no further
than the command in its scope.  Evaluation is strict and goes from left to right, and the first
error ends the run.

A loop may never end, so a run has a limit on the number of rounds of each loop.  A run that
reaches it has no outcome; any other outcome is the same for all greater limits.
-/
import SmallImp.Diagnostic
import SmallImp.Operator
import SmallImp.State.Description
import SmallImp.Tree.Basic

namespace SmallImp

/-- Why a run fails. -/
inductive RunError where
  | undefinedIdentifier (name : String) (block : Block)
  | constantReassignment (name : String) (block : Block)
  | wrongType (expected found : Ty) (block : Block)
  | unknownDeclaration (block : Block)
  | divisionByZero (block : Block)
  | unknownOperator (symbol : String) (block : Block)
  | unknownCommand (block : Block)
  | unknownExpression (block : Block)
  /-- A variable whose location the store does not bind. -/
  | unboundLocation (location : Location)
  /-- An operation that has no result. -/
  | arithmetic (fault : ArithmeticFault)
  deriving DecidableEq

namespace RunError

/-- The incident of an error of one type at a block. -/
def incident (type : IncidentType) (message : String) (block : Block) : Incident :=
  ⟨type.phase, type, message, some block⟩

/-- The incident to report for an error.  There is none for an error that the language does not
know of; such an error leaves the run as it is. -/
def incident? : RunError → Option Incident
  | undefinedIdentifier name block =>
    some (incident .undefinedIdentifier ("undefined identificator '" ++ name ++ "'") block)
  | constantReassignment name block =>
    some (incident .constantReassignment ("constant '" ++ name ++ "' re-assignment") block)
  | wrongType expected found block =>
    some (incident .wrongType
      ("expected '" ++ expected.name ++ "' type, but found '" ++ found.name ++ "' type") block)
  | unknownDeclaration block => some (incident .unknownDeclaration "unknown declaration" block)
  | divisionByZero block => some (incident .divisionByZero "division by zero" block)
  | unknownOperator symbol block =>
    some (incident .unknownOperator ("unknown operator '" ++ symbol ++ "'") block)
  | unknownCommand block => some (incident .unknownCommand "unknown command" block)
  | unknownExpression block => some (incident .unknownExpression "unknown expression" block)
  | unboundLocation _ => none
  | arithmetic _ => none

end RunError

/-- What a run notes of its declarations. -/
inductive Event where
  | allocated (location : Location)
  | variableBound (name : String) (location : Location)
  | constantBound (name : String) (value : Value)
  deriving DecidableEq

/-- What a run leaves behind besides the store. -/
structure Progress where
  /-- The index of the next location; each is given out once. -/
  next : Nat
  /-- The text printed. -/
  output : String
  /-- The events, the last one first. -/
  events : List Event
  deriving DecidableEq

namespace Progress

/-- Nothing printed or noted yet, and all locations from an index on free. -/
def fresh (next : Nat) : Progress := ⟨next, "", []⟩

/-- The progress after one more event. -/
def note (progress : Progress) (event : Event) : Progress :=
  { progress with events := event :: progress.events }

/-- The progress after a location has been given out. -/
def allocate (progress : Progress) : Progress :=
  { progress with next := progress.next + 1 }.note (.allocated ⟨progress.next⟩)

/-- The progress after a value has been printed on a line of its own. -/
def print (progress : Progress) (value : Value) : Progress :=
  { progress with output := progress.output ++ (value.text ++ "\n") }

end Progress

/-- A result or an error, with what was left behind on the way to it. -/
structure Attempt (α : Type) where
  result : Except RunError α
  progress : Progress

/-! ## Expressions -/

/-- The meaning of a name. -/
def resolve (name : Identifier) (env : Environment) : Except RunError Binding :=
  match env.get? name.name with
  | some binding => .ok binding
  | none => .error (.undefinedIdentifier name.name name.block)

/-- The value of a name: a variable's is in the store. -/
def Binding.read (store : Store) : Binding → Except RunError Value
  | .value held => .ok held
  | .location cell =>
    match store.get? cell with
    | some held => .ok held
    | none => .error (.unboundLocation cell)

/-- A value, if it is of the expected type. -/
def Value.expect (value : Value) (type : Ty) (block : Block) : Except RunError Unit :=
  if value.ty = type then .ok () else .error (.wrongType type value.ty block)

/-- Whether the operands suit an operator: first the left one, then the right one; with no
type of its own the operator expects the right one to be of the left one's type. -/
def BinaryOperator.check (operator : BinaryOperator) (a b : Value) (left right : Block) :
    Except RunError Unit :=
  match operator.operandType with
  | none => b.expect a.ty right
  | some type => (a.expect type left).bind fun _ => b.expect type right

/-- An operator on two values, with the blocks of the operands. -/
def Operator.applyBinary (operator : Operator) (a b : Value) (left right : Block) :
    Except RunError Value :=
  match BinaryOperator.ofSymbol? operator.symbol with
  | none => .error (.unknownOperator operator.symbol operator.block)
  | some known =>
    (known.check a b left right).bind fun _ =>
      if known.dividing && b.asNumber.isZero then .error (.divisionByZero operator.block)
      else (known.apply a b).mapError .arithmetic

/-- An operator on one value, with the block of the operand. -/
def Operator.applyUnary (operator : Operator) (a : Value) (operand : Block) :
    Except RunError Value :=
  match UnaryOperator.ofSymbol? operator.symbol with
  | none => .error (.unknownOperator operator.symbol operator.block)
  | some known => (a.expect known.operandType operand).map fun _ => known.apply a

/-- The value of an expression. -/
def evaluate (env : Environment) (store : Store) : Expr → Except RunError Value
  | .value literal _ => .ok (.ofLiteral literal.type literal.lexeme)
  | .identifier name _ => (resolve name env).bind (·.read store)
  | .unary operator operand _ =>
    (evaluate env store operand).bind fun a => operator.applyUnary a operand.block
  | .binary left operator right _ =>
    (evaluate env store left).bind fun a =>
    (evaluate env store right).bind fun b =>
      operator.applyBinary a b left.block right.block
  | .parenthesis inner _ => evaluate env store inner
  | .unknown node => .error (.unknownExpression node.block)

/-- The value of a condition, which has to be a boolean. -/
def evaluateCondition (env : Environment) (store : Store) (condition : Expr) :
    Except RunError Bool :=
  (evaluate env store condition).bind fun value =>
  (value.expect .boolean condition.block).map fun _ => value.asBoolean

/-! ## Declarations -/

/-- What an environment and a store become by a declaration.  A first value is computed before
its name is bound; the type that is written does not matter. -/
def elaborate : Declaration → Environment → Store → Progress → Attempt (Environment × Store)
  | .nil _, env, store, progress => ⟨.ok (env, store), progress⟩
  | .variable name _ initial _, env, store, progress =>
    match evaluate env store initial with
    | .error error => ⟨.error error, progress⟩
    | .ok value =>
      let location : Location := ⟨progress.next⟩
      ⟨.ok (env.extend name.name (.location location), store.extend location value),
        progress.allocate.note (.variableBound name.name location)⟩
  | .constant name _ expression _, env, store, progress =>
    match evaluate env store expression with
    | .error error => ⟨.error error, progress⟩
    | .ok value =>
      ⟨.ok (env.extend name.name (.value value), store),
        progress.note (.constantBound name.name value)⟩
  | .group first second _, env, store, progress =>
    match elaborate first env store progress with
    | ⟨.error error, progress⟩ => ⟨.error error, progress⟩
    | ⟨.ok (env, store), progress⟩ => elaborate second env store progress
  | .unknown node, _, _, progress => ⟨.error (.unknownDeclaration node.block), progress⟩

/-! ## Commands -/

/-- The rounds of a loop, at most `limit` of them. -/
def rounds (condition : Store → Except RunError Bool)
    (round : Store → Progress → Option (Attempt Store)) :
    (limit : Nat) → Store → Progress → Option (Attempt Store)
  | 0, _, _ => none
  | limit + 1, store, progress =>
    match condition store with
    | .error error => some ⟨.error error, progress⟩
    | .ok false => some ⟨.ok store, progress⟩
    | .ok true =>
      match round store progress with
      | none => none
      | some ⟨.error error, progress⟩ => some ⟨.error error, progress⟩
      | some ⟨.ok store, progress⟩ => rounds condition round limit store progress

/-- What a store becomes by a command; nothing where a loop goes on beyond the limit. -/
def execute (limit : Nat) : Command → Environment → Store → Progress → Option (Attempt Store)
  | .nil _, _, store, progress => some ⟨.ok store, progress⟩
  | .scope declaration body _, env, store, progress =>
    match elaborate declaration env store progress with
    | ⟨.error error, progress⟩ => some ⟨.error error, progress⟩
    | ⟨.ok (env, store), progress⟩ => execute limit body env store progress
  | .sequence first second _, env, store, progress =>
    match execute limit first env store progress with
    | none => none
    | some ⟨.error error, progress⟩ => some ⟨.error error, progress⟩
    | some ⟨.ok store, progress⟩ => execute limit second env store progress
  | .assign target value block, env, store, progress =>
    match resolve target env with
    | .error error => some ⟨.error error, progress⟩
    | .ok (.value _) => some ⟨.error (.constantReassignment target.name block), progress⟩
    | .ok (.location location) =>
      some ⟨(evaluate env store value).map (store.extend location), progress⟩
  | .branch condition body _, env, store, progress =>
    match evaluateCondition env store condition with
    | .error error => some ⟨.error error, progress⟩
    | .ok true => execute limit body env store progress
    | .ok false => some ⟨.ok store, progress⟩
  | .branchElse condition body otherwise _, env, store, progress =>
    match evaluateCondition env store condition with
    | .error error => some ⟨.error error, progress⟩
    | .ok true => execute limit body env store progress
    | .ok false => execute limit otherwise env store progress
  | .loop condition body _, env, store, progress =>
    rounds (fun store => evaluateCondition env store condition)
      (fun store progress => execute limit body env store progress) limit store progress
  | .print value _, env, store, progress =>
    match evaluate env store value with
    | .error error => some ⟨.error error, progress⟩
    | .ok value => some ⟨.ok store, progress.print value⟩
  | .unknown node, _, _, progress => some ⟨.error (.unknownCommand node.block), progress⟩

/-- A run of a whole program, from nothing bound and nothing stored. -/
def run (limit : Nat) (program : Command) : Option (Attempt Store) :=
  execute limit program .empty .empty (.fresh 0)

end SmallImp
