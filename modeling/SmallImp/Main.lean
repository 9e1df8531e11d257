/-
# The program

Reads its arguments, does the job on real files and streams, and returns the exit status.
-/
import SmallImp.CommandLine.Job

namespace SmallImp
namespace CommandLine

/-- The rounds that a loop may take: more than any machine can make. -/
def roundLimit : Nat := Nat.pow 2 62

/-- Tells why a file could not be reached.  Of the two errors about directories the one for
something that is none has the code 20, with either sign. -/
def fileFault : IO.Error → FileFault
  | .inappropriateType _ code _ =>
    if code == 20 || code + 20 == 0 then .notDirectory else .directory
  | .alreadyExists .. => .occupied
  | _ => .missing

/-- Access to the files and streams of the machine. -/
def machineAccess : Access IO where
  read path := do
    try return .ok (← IO.FS.readBinFile path.text)
    catch error => return .error (fileFault error)
  write path contents := do
    try
      IO.FS.createDirAll path.parent.text
      IO.FS.writeBinFile path.text contents
      return .ok ()
    catch error => return .error (fileFault error)
  print := IO.print
  report := IO.eprint

/-- What is said of an interruption. -/
def interruptionText : Interruption → String
  | .file .missing => "the file cannot be found or written"
  | .file .directory => "the path is a directory"
  | .file .notDirectory => "a part of the path is not a directory"
  | .file .occupied => "the file exists where a directory is wanted"
  | .file .nameTooLong => "the path is too long"
  | .unnamedTarget => "no path is given for the tree"
  | .undecodable => "the source file is not UTF-8 text"
  | .run _ => "math domain error"
  | .unfinished => "a loop does not end"

/-- Does what the arguments ask for on this machine; the result is the exit status. -/
def runHere (arguments : List String) : IO UInt32 := do
  match ← runArguments roundLimit machineAccess arguments with
  | .exit status => return UInt32.ofNat status
  | .interrupted cause =>
    IO.eprint (interruptionText cause ++ "\n")
    return 1

end CommandLine
end SmallImp

/-- Runs one source file. -/
def main (arguments : List String) : IO UInt32 := SmallImp.CommandLine.runHere arguments
