/-
# Command-line arguments

A command line names one source file and any options, in any order:

| option | meaning |
| --- | --- |
| `-h`, `--help` | show the help and stop |
| `--ast-out PATH` | write the tree as JSON to a file |
| `--parse-only` | stop after reading the program |
| `-v`, `--verbose` | log what happens |

A long option may be shortened as long as it stays the only one, and takes its value as the
next argument or after `=`.  Short options may share one dash.  After `--` nothing is an
option.  An argument that starts with a dash is no option if it is the dash alone, looks like a
negative number or holds a space and means no option.  A value is never `--`: given after `=`,
it counts as no path at all, and the option as given.
-/
import SmallImp.CommandLine.Path
import SmallImp.Text.DecimalDigit
import SmallImp.Text.Quoted

namespace SmallImp
namespace CommandLine

/-- The options. -/
inductive Flag where
  | help | astOut | parseOnly | verbose
  deriving DecidableEq

/-- Where the tree is to be written. -/
inductive Target where
  | path (path : Path)
  /-- Nowhere, though it was asked for. -/
  | unnamed
  deriving DecidableEq

/-- The target that a value names. -/
def Target.ofValue (value : String) : Target :=
  if value == "--" then unnamed else path (.ofText value)

/-- What a run is asked to do. -/
structure Options where
  source : Path
  astOut : Option Target
  parseOnly : Bool
  verbose : Bool
  deriving DecidableEq

/-- What a command line asks for. -/
inductive Request where
  | help
  | invalid (message : String)
  | run (options : Options)
  deriving DecidableEq

/-- An argument on its own: no option, an option with the text attached to it, or an option
that there is not. -/
inductive Word where
  | plain (text : String)
  | flag (flag : Flag) (short : Bool) (attached : Option String)
  | unknown (text : String)
  deriving DecidableEq

/-- The spellings of the options, in the order in which choices are listed. -/
def spellings : List (String × Flag) :=
  [("-h", .help), ("--help", .help), ("--ast-out", .astOut), ("--parse-only", .parseOnly),
   ("-v", .verbose), ("--verbose", .verbose)]

/-- The name of an option in messages: all its spellings. -/
def Flag.title (flag : Flag) : String :=
  "/".intercalate ((spellings.filter (·.2 == flag)).map (·.1))

/-- An option by one of its spellings. -/
def flagWord (spelling : String) (flag : Flag) (attached : Option String) : Word :=
  .flag flag (!"--".isPrefixOf spelling) attached

/-- The part of an argument before the first equals sign, and the part after it. -/
def splitAtEquals (text : String) : String × Option String :=
  let chars := text.toList
  match chars.dropWhile (· != '=') with
  | [] => (text, none)
  | _ :: value => (String.ofList (chars.takeWhile (· != '=')), some (String.ofList value))

/-- Whether characters are the digits of a number, with digits after any point. -/
def areDigits (chars : List Char) : Bool :=
  match chars.dropWhile Text.isDecimalDigit with
  | [] => !chars.isEmpty
  | '.' :: fraction => !fraction.isEmpty && fraction.all Text.isDecimalDigit
  | _ => false

/-- Characters without a line feed at their end. -/
def withoutLastLineFeed (chars : List Char) : List Char :=
  if chars.getLast? == some '\n' then chars.dropLast else chars

/-- Whether an argument reads as a negative number. -/
def isNegativeNumber (text : String) : Bool :=
  match text.toList with
  | '-' :: rest => areDigits (withoutLastLineFeed rest)
  | _ => false

/-- The options that a shortened spelling may mean, and short options with more behind them. -/
def candidates (text : String) : List (String × Word) :=
  if "--".isPrefixOf text then
    let (name, value) := splitAtEquals text
    (spellings.filter fun (spelling, _) => name.isPrefixOf spelling).map fun (spelling, flag) =>
      (spelling, flagWord spelling flag value)
  else
    let (name, rest) := (text.toList.take 2, text.toList.drop 2)
    (spellings.filter fun (spelling, _) => spelling.toList == name).map fun (spelling, flag) =>
      (spelling, flagWord spelling flag (some (String.ofList rest)))

/-- What an argument before `--` is, or the message for one that is ambiguous. -/
def classify (text : String) : Except String Word :=
  if !"-".isPrefixOf text then .ok (.plain text)
  else match spellings.lookup text with
  | some flag => .ok (flagWord text flag none)
  | none =>
    if text == "-" then .ok (.plain text)
    else
      let (name, value) := splitAtEquals text
      match value, spellings.lookup name with
      | some value, some flag => .ok (flagWord name flag (some value))
      | _, _ =>
        match candidates text with
        | [] =>
          if isNegativeNumber text || text.toList.contains ' ' then .ok (.plain text)
          else .ok (.unknown text)
        | [(_, word)] => .ok word
        | several =>
          .error ("ambiguous option: " ++ text ++ " could match " ++
            ", ".intercalate (several.map (·.1)))

/-- The message for a value attached to an option that takes none. -/
def ignoredValue (flag : Flag) (value : String) : String :=
  "argument " ++ flag.title ++ ": ignored explicit argument " ++ Text.quoted value

/-- A short option and those that its attached text stands for, a letter each.  A letter that is
no option makes the whole text from there on a value of the option before it. -/
def cluster (flag : Flag) : List Char → Except String (List Flag)
  | [] => .error (ignoredValue flag "")
  | c :: rest =>
    match spellings.lookup (String.ofList ['-', c]), rest with
    | none, _ => .error (ignoredValue flag (String.ofList (c :: rest)))
    | some next, [] => .ok [flag, next]
    | some next, rest => (cluster next rest).map (flag :: ·)

/-- The options without a value that one argument stands for. -/
def flagsOf (flag : Flag) (short : Bool) : (attached : Option String) → Except String (List Flag)
  | none => .ok [flag]
  | some text => if short then cluster flag text.toList else .error (ignoredValue flag text)

/-- What has been read of a command line. -/
structure Collected where
  source : Option String
  extras : List String
  astOut : Option Target
  parseOnly : Bool
  verbose : Bool
  deriving DecidableEq

namespace Collected

/-- Nothing read yet. -/
def empty : Collected := ⟨none, [], none, false, false⟩

/-- A word that is no option: the source file, or one too many. -/
def plain (collected : Collected) (text : String) : Collected :=
  match collected.source with
  | none => { collected with source := some text }
  | some _ => { collected with extras := collected.extras ++ [text] }

/-- Words left over. -/
def leave (collected : Collected) (texts : List String) : Collected :=
  { collected with extras := collected.extras ++ texts }

/-- An option without a value. -/
def set (collected : Collected) : Flag → Collected
  | .parseOnly => { collected with parseOnly := true }
  | .verbose => { collected with verbose := true }
  | .help | .astOut => collected

/-- What is asked for in the end. -/
def request (collected : Collected) : Request :=
  match collected.source with
  | none => .invalid "the following arguments are required: source"
  | some source =>
    if collected.extras.isEmpty then
      .run ⟨.ofText source, collected.astOut, collected.parseOnly, collected.verbose⟩
    else .invalid ("unrecognized arguments: " ++ " ".intercalate collected.extras)

end Collected

/-- The words from `--` on.  The mark belongs to the source file where that is next to it on
either side, else it is left over like the words after it. -/
def collectRest (collected : Collected) (sourceIsLast : Bool) : List String → Collected
  | [] => collected
  | mark :: rest =>
    if sourceIsLast then collected.leave rest
    else match collected.source, rest with
      | none, source :: rest => { collected with source := some source }.leave rest
      | _, rest => collected.leave (mark :: rest)

/-- The words before `--`, then the arguments from there on. -/
def collect (after : List String) : List Word → (sourceIsLast : Bool) → Collected → Request
  | [], sourceIsLast, collected => (collectRest collected sourceIsLast after).request
  | .plain text :: rest, _, collected =>
    collect after rest collected.source.isNone (collected.plain text)
  | .unknown text :: rest, _, collected => collect after rest false (collected.leave [text])
  | .flag .astOut _ (some value) :: rest, _, collected =>
    collect after rest false { collected with astOut := some (.ofValue value) }
  | .flag .astOut _ none :: .plain value :: rest, _, collected =>
    collect after rest false { collected with astOut := some (.ofValue value) }
  | .flag .astOut _ none :: _, _, _ => .invalid "argument --ast-out: expected one argument"
  | .flag flag short attached :: rest, _, collected =>
    match flagsOf flag short attached with
    | .error message => .invalid message
    | .ok flags =>
      if flags.contains .help then .help
      else collect after rest false (flags.foldl Collected.set collected)

/-- What a list of arguments asks for. -/
def Request.ofArguments (arguments : List String) : Request :=
  match (arguments.takeWhile (· != "--")).mapM classify with
  | .error message => .invalid message
  | .ok words => collect (arguments.dropWhile (· != "--")) words false .empty

end CommandLine
end SmallImp
