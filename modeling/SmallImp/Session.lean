/-
# Sessions

A session runs pieces of programs one after the other.  It keeps all the states that it has
been in, an environment and a store each, and every step takes its environment and its store
from any of them.  A step that fails adds no state, but the locations that it has given out
stay used.
-/
import SmallImp.Program
import SmallImp.Run

namespace SmallImp

/-- An environment and a store. -/
structure State where
  env : Environment
  store : Store

/-- The states so far, the last one first and the rest after it, and the index of the next
location. -/
structure Session where
  current : State
  earlier : List State
  next : Nat

namespace Session

/-- A session before its first step. -/
def initial : Session := ⟨⟨.empty, .empty⟩, [], 0⟩

/-- The number of the current state; the first one has number zero. -/
def stateNumber (session : Session) : Nat := session.earlier.length

/-- All states so far, in the order of their numbers. -/
def states (session : Session) : List State := session.earlier.reverse ++ [session.current]

/-- The state with a number; the current one for no number, or for one that is not in use. -/
def state (session : Session) : Option Nat → State
  | none => session.current
  | some number => (session.states[number]?).getD session.current

/-- The session after a new state. -/
def push (session : Session) (state : State) : Session :=
  { session with current := state, earlier := session.current :: session.earlier }

/-- What a step does. -/
inductive Action where
  /-- Execute a program. -/
  | execute (source : String)
  /-- Elaborate the declarations that a program starts with, the first child of its tree. -/
  | elaborate (source : String)
  /-- Evaluate the expression of a program that prints one, the first child of its tree. -/
  | evaluate (source : String)
  /-- Look up a name in the environment. -/
  | lookup (name : String)
  /-- Look up a location in the store. -/
  | dereference (location : Location)

/-- A step: what it does, and the numbers of the states whose environment and whose store it
takes. -/
structure Step where
  action : Action
  env : Option Nat
  store : Option Nat

/-- What a step answers. -/
inductive Reply where
  | done
  | evaluated (value : Value)
  | found (binding : Binding)
  | missing (key : Key)
  | sourceError (error : SourceError)
  | runError (error : RunError)
  /-- A loop went on beyond the limit. -/
  | unfinished
  /-- The program is not of the form that the step asks for. -/
  | unsuited

/-- A step's answer, the text that it printed and the session after it. -/
structure Result where
  reply : Reply
  output : String
  session : Session

/-- The result of a step that leaves the session as it is. -/
def answer (session : Session) (reply : Reply) : Result := ⟨reply, "", session⟩

/-- The result of an attempt at a new state. -/
def conclude (session : Session) (attempt : Attempt State) : Result :=
  let session := { session with next := attempt.progress.next }
  match attempt.result with
  | .ok state => ⟨.done, attempt.progress.output, session.push state⟩
  | .error error => ⟨.runError error, attempt.progress.output, session⟩

/-- The first child of a command as a declaration, which it is for a scope alone. -/
def firstDeclaration? : Command → Option Declaration
  | .scope declaration _ _ => some declaration
  | command => command.node.children.head?.map .unknown

/-- The first child of a command as an expression; a name that is assigned to is none. -/
def firstExpr? : Command → Option Expr
  | .print value _ => some value
  | .branch condition _ _ | .branchElse condition _ _ _ | .loop condition _ _ => some condition
  | .assign _ _ _ => none
  | command => command.node.children.head?.map .unknown

/-- The result of a step on a program. -/
def runProgram (limit : Nat) (session : Session) (env : Environment) (store : Store)
    (action : Action) (program : Command) : Result :=
  match action with
  | .elaborate _ =>
    match firstDeclaration? program with
    | none => session.answer .unsuited
    | some declaration =>
      let attempt := SmallImp.elaborate declaration env store (.fresh session.next)
      session.conclude ⟨attempt.result.map fun (env, store) => ⟨env, store⟩, attempt.progress⟩
  | .evaluate _ =>
    match (firstExpr? program).map (SmallImp.evaluate env store) with
    | none => session.answer .unsuited
    | some (.ok value) => session.answer (.evaluated value)
    | some (.error error) => session.answer (.runError error)
  | .execute _ =>
    match SmallImp.execute limit program env store (.fresh session.next) with
    | none => session.answer .unfinished
    | some attempt =>
      session.conclude ⟨attempt.result.map fun store => ⟨env, store⟩, attempt.progress⟩
  | .lookup _ | .dereference _ => session.answer .unsuited

/-- One step. -/
def step (limit : Nat) (session : Session) (step : Step) : Result :=
  let env := (session.state step.env).env
  let store := (session.state step.store).store
  match step.action with
  | .lookup name =>
    match env.get? name with
    | some binding => session.answer (.found binding)
    | none => session.answer (.missing (.name name))
  | .dereference location =>
    match store.get? location with
    | some value => session.answer (.found (.value value))
    | none => session.answer (.missing (.location location))
  | .execute source | .elaborate source | .evaluate source =>
    match parse source with
    | .error error => session.answer (.sourceError error)
    | .ok program => session.runProgram limit env store step.action program

/-- A list of steps, each in the session that the one before it leaves. -/
def steps (limit : Nat) (session : Session) : List Step → List Result
  | [] => []
  | first :: rest =>
    let result := session.step limit first
    result :: result.session.steps limit rest

end Session

end SmallImp
