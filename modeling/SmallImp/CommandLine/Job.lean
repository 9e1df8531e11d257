/-
# Jobs

A job is what a command line asks for, done step by step: the source file is read and decoded,
the program is read, its tree is written out where that is asked for, and the program runs.
What it prints, what it reports, the files it needs and how it ends are all that shows.  The
job is written over any way of reaching files and streams: `Access`.

An error in the source text or of the run is reported, and the status is one.  A file that
cannot be reached, a text that cannot be decoded and an error that no report is known for
interrupt the job.
-/
import SmallImp.CommandLine.Arguments
import SmallImp.CommandLine.Folder
import SmallImp.Program
import SmallImp.Run
import SmallImp.Tree.Encoding

namespace SmallImp
namespace CommandLine

/-- What interrupts a job. -/
inductive Interruption where
  | file (fault : FileFault)
  /-- The tree is to be written, but no path is given. -/
  | unnamedTarget
  | undecodable
  | run (error : RunError)
  /-- A loop went on beyond the limit. -/
  | unfinished
  deriving DecidableEq

/-- How a job ends: with an exit status, or interrupted. -/
inductive Ending where
  | exit (status : Nat)
  | interrupted (cause : Interruption)
  deriving DecidableEq

/-- A way of reaching files and streams. -/
structure Access (m : Type → Type) where
  read : Path → m (Except FileFault ByteArray)
  write : Path → ByteArray → m (Except FileFault Unit)
  print : String → m Unit
  report : String → m Unit

/-! ## Texts -/

/-- How the program is called. -/
def usage : String := "usage: smll [-h] [--ast-out AST_OUT] [--parse-only] [-v] source\n"

/-- The help. -/
def help : String :=
  usage ++
  "\nsmll: parse and interpret an SmLL program\n" ++
  "\npositional arguments:\n" ++
  "  source             SmLL source file\n" ++
  "\noptions:\n" ++
  "  -h, --help         show this help message and exit\n" ++
  "  --ast-out AST_OUT  Write the parsed AST as JSON to this path\n" ++
  "  --parse-only       Stop after parsing (and --ast-out)\n" ++
  "  -v, --verbose      Log interpreter debug traces to stderr\n"

/-- A line of the log. -/
def logLine (source message : String) : String :=
  "DEBUG smll." ++ source ++ ": " ++ message ++ "\n"

/-- A block in the log. -/
def blockText (block : Block) : String :=
  "Block(first_line=" ++ toString block.first.line ++
    ", first_column=" ++ toString block.first.column ++
    ", last_line=" ++ toString block.last.line ++
    ", last_column=" ++ toString block.last.column ++ ")"

/-- An event in the log. -/
def eventLine : Event → String
  | .allocated location => logLine "env" ("allocated " ++ location.text)
  | .variableBound name location =>
    logLine "interp" ("variable " ++ name ++ " bound to " ++ location.text)
  | .constantBound name value =>
    logLine "interp" ("constant " ++ name ++ " bound to " ++ value.text)

/-- The events of a run in the log, in the order in which they came. -/
def eventLines (progress : Progress) : String :=
  String.join (progress.events.reverse.map eventLine)

/-! ## Source texts -/

/-- A text in which every line ends in a line feed. -/
def normalizedLines : List Char → List Char
  | '\r' :: '\n' :: rest => '\n' :: normalizedLines rest
  | '\r' :: rest => '\n' :: normalizedLines rest
  | c :: rest => c :: normalizedLines rest
  | [] => []

/-- The source text that a file holds, if its bytes are text at all. -/
def sourceText? (contents : ByteArray) : Option String :=
  (String.fromUTF8? contents).map fun text => String.ofList (normalizedLines text.toList)

/-! ## Steps -/

variable {m : Type → Type} [Monad m]

/-- Logs something where the log is wanted. -/
def logTo (access : Access m) (options : Options) (text : String) : m Unit :=
  if options.verbose then access.report text else pure ()

/-- Runs a program and reports how that went. -/
def runProgram (limit : Nat) (access : Access m) (options : Options) (program : Command) :
    m Ending :=
  match run limit program with
  | none => pure (.interrupted .unfinished)
  | some attempt => do
    access.print attempt.progress.output
    logTo access options (eventLines attempt.progress)
    match attempt.result with
    | .ok _ => return .exit 0
    | .error error =>
      match error.incident? with
      | some incident =>
        access.report (incident.report ++ "\n")
        return .exit 1
      | none => return .interrupted (.run error)

/-- Writes the tree of a program to a file; the result is what interrupts that. -/
def writeTree (access : Access m) (options : Options) (program : Command) :
    Target → m (Option Interruption)
  | .unnamed => return some .unnamedTarget
  | .path path => do
    match ← access.write path (program.node.dump ++ "\n").toUTF8 with
    | .error fault => return some (.file fault)
    | .ok () =>
      logTo access options (logLine "driver" ("wrote AST to " ++ path.text))
      return none

/-- Writes the tree of a program where that is asked for, and runs the program unless it was
only to be read. -/
def finish (limit : Nat) (access : Access m) (options : Options) (program : Command) :
    m Ending := do
  let interruption ← match options.astOut with
    | none => pure none
    | some target => writeTree access options program target
  match interruption with
  | some cause => return .interrupted cause
  | none =>
    if options.parseOnly then return .exit 0 else runProgram limit access options program

/-- Reads a program and goes on with it. -/
def runFile (limit : Nat) (access : Access m) (options : Options) : m Ending := do
  match ← access.read options.source with
  | .error fault => return .interrupted (.file fault)
  | .ok contents =>
    match sourceText? contents with
    | none => return .interrupted .undecodable
    | some source =>
      match parse source with
      | .error error =>
        access.report (error.diagnostic.text ++ "\n")
        return .exit 1
      | .ok program =>
        logTo access options
          (logLine "parser" ("parsed program spanning " ++ blockText program.block))
        finish limit access options program

/-- Does what a list of arguments asks for. -/
def runArguments (limit : Nat) (access : Access m) (arguments : List String) : m Ending :=
  match Request.ofArguments arguments with
  | .help => do
    access.print help
    return .exit 0
  | .invalid message => do
    access.report (usage ++ "smll: error: " ++ message ++ "\n")
    return .exit 2
  | .run options => runFile limit access options

/-! ## In a folder that is a value -/

/-- A folder and what has been printed and reported so far. -/
structure Desk where
  folder : Folder
  output : String
  errors : String

/-- Access to a desk. -/
def Desk.access : Access (StateM Desk) where
  read path := do return (← get).folder.read path
  write path contents := do
    let desk ← get
    match desk.folder.write path contents with
    | .error fault => return .error fault
    | .ok folder =>
      set { desk with folder := folder }
      return .ok ()
  print text := modify fun desk => { desk with output := desk.output ++ text }
  report text := modify fun desk => { desk with errors := desk.errors ++ text }

/-- Does what a list of arguments asks for in a folder. -/
def runIn (limit : Nat) (folder : Folder) (arguments : List String) : Ending × Desk :=
  (runArguments limit Desk.access arguments).run ⟨folder, "", ""⟩

end CommandLine
end SmallImp
