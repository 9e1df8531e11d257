/-
# Diagnostics

What is said about an error: the phase it belongs to, a message, and a place where there is
one.  An incident is an error of a running program: it has a type, and it is reported with the
type in front.
-/
import SmallImp.Source.Block

namespace SmallImp

/-- The phases that errors belong to.  Static errors are those a checker could have found; they
too come up only when a run reaches them. -/
inductive Phase where
  | lexical | grammatical | static | dynamic
  deriving DecidableEq, Repr

/-- The name of the errors of a phase. -/
def Phase.name : Phase → String
  | .lexical => "LEXICAL_ERROR"
  | .grammatical => "SYNTAX_ERROR"
  | .static => "STATIC_SEMANTIC_ERROR"
  | .dynamic => "DYNAMIC_SEMANTIC_ERROR"

/-- A message with its phase and place. -/
structure Diagnostic where
  phase : Phase
  message : String
  line : Option Int
  column : Option Int
  deriving DecidableEq, Repr

/-- The text of a column; a missing one is called `None`. -/
def Diagnostic.columnText : Option Int → String
  | none => "None"
  | some column => toString column

/-- The phase and the message in quotes, with the place between them where the line is known. -/
def Diagnostic.text (diagnostic : Diagnostic) : String :=
  let place := match diagnostic.line with
    | none => ""
    | some line =>
      " at line " ++ toString line ++ ", column " ++ columnText diagnostic.column
  "'" ++ diagnostic.phase.name ++ "'" ++ place ++ ": '" ++ diagnostic.message ++ "'"

/-- The types of incidents. -/
inductive IncidentType where
  | undefinedIdentifier | constantReassignment | wrongType | unknownDeclaration
  | divisionByZero | unknownOperator | unknownCommand | unknownExpression
  deriving DecidableEq, Repr

namespace IncidentType

/-- The name of a type of incidents. -/
def name : IncidentType → String
  | undefinedIdentifier => "UNDEFINED_IDENTIFICATOR"
  | constantReassignment => "CONSTANT_REASSIGNMENT"
  | wrongType => "WRONG_TYPE"
  | unknownDeclaration => "UNKNOWN_DECLARATION"
  | divisionByZero => "DIVISION_BY_ZERO"
  | unknownOperator => "UNKNOWN_OPERATOR"
  | unknownCommand => "UNKNOWN_COMMAND"
  | unknownExpression => "UNKNOWN_EXPRESSION"

/-- The phase that a type of incidents belongs to. -/
def phase : IncidentType → Phase
  | undefinedIdentifier | constantReassignment | wrongType | unknownDeclaration => .static
  | divisionByZero | unknownOperator | unknownCommand | unknownExpression => .dynamic

/-- All types of incidents. -/
def all : List IncidentType :=
  [undefinedIdentifier, constantReassignment, wrongType, unknownDeclaration,
   divisionByZero, unknownOperator, unknownCommand, unknownExpression]

/-- The type of incidents with a name. -/
def ofName? (name : String) : Option IncidentType := all.find? (·.name == name)

end IncidentType

/-- An error of a running program. -/
structure Incident where
  phase : Phase
  type : IncidentType
  message : String
  block : Option Block
  deriving DecidableEq, Repr

/-- An incident as a diagnostic, placed at the start of its block. -/
def Incident.diagnostic (incident : Incident) : Diagnostic where
  phase := incident.phase
  message := incident.message
  line := incident.block.map (·.first.line)
  column := incident.block.map (·.first.column)

/-- The report of an incident: its type, its message and its place. -/
def Incident.report (incident : Incident) : String :=
  let place := match incident.block with
    | none => ""
    | some block =>
      " (line " ++ toString block.first.line ++ ", column " ++ toString block.first.column ++ ")"
  "ERROR -> " ++ incident.type.name ++ ": " ++ incident.message ++ place

end SmallImp
