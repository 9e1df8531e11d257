/-
# Folders

A folder as a value: the files and directories below it by the parts of their paths.  A path is
followed from part to part, and every part but the last has to lead to a directory.

What lies outside the folder is not part of it: a file written there leaves no trace, and only
what every machine has is there, `outer`.
-/
import SmallImp.CommandLine.Path
import SmallImp.State.Bindings

namespace SmallImp
namespace CommandLine

/-- Why a file cannot be read or written. -/
inductive FileFault where
  | missing
  /-- It is a directory. -/
  | directory
  /-- Something on the way to it is no directory. -/
  | notDirectory
  /-- A directory is wanted where there is something else. -/
  | occupied
  | nameTooLong
  deriving DecidableEq

/-- What is at a place. -/
inductive Entry where
  | directory
  | file (contents : ByteArray)

instance : DecidableEq Entry
  | .directory, .directory => .isTrue rfl
  | .directory, .file _ => .isFalse nofun
  | .file _, .directory => .isFalse nofun
  | .file a, .file b =>
    match a.decEq b with
    | .isTrue same => .isTrue (congrArg Entry.file same)
    | .isFalse other => .isFalse fun same => other (Entry.file.inj same)

/-- Where a path leads: to a place in the folder, or to something outside. -/
inductive Place where
  | inside (parts : List String)
  | outside (entry : Option Entry)
  deriving DecidableEq

/-- Files and directories by the parts of their paths. -/
structure Folder where
  entries : Bindings (List String) Entry

/-- The longest name of a part, in bytes. -/
def longestName : Nat := 255

/-- The longest text of a path, in bytes. -/
def longestPath : Nat := 4095

/-- What is outside: the directories that a folder is in, `/`, `/dev` and `/tmp`, and the empty
file `/dev/null`. -/
def outer (path : Path) : Option Entry :=
  if path.parts.all (· == "..") then some .directory
  else if path.root.isEmpty then none
  else if path.parts = ["dev"] ∨ path.parts = ["tmp"] then some .directory
  else if path.parts = ["dev", "null"] then some (.file .empty)
  else none

namespace Folder

/-- The folder with nothing in it. -/
def empty : Folder := ⟨Bindings.empty.extend [] .directory⟩

/-- What is at a place. -/
def get? (folder : Folder) (place : List String) : Option Entry := folder.entries.get? place

/-- The folder with something put at a place. -/
def put (folder : Folder) (place : List String) (entry : Entry) : Folder :=
  ⟨folder.entries.extend place entry⟩

/-- Putting something at a place changes what is at that place alone. -/
theorem get?_put (folder : Folder) (place other : List String) (entry : Entry) :
    (folder.put place entry).get? other =
      if place = other then some entry else folder.get? other :=
  Bindings.get?_extend folder.entries place other entry

/-- The folder with a file put at a place, in the directories on the way there. -/
def putFile (folder : Folder) (place : List String) (contents : ByteArray) : Folder :=
  let ways := (List.range place.length).map place.take
  (ways.foldl (fun folder way => folder.put way .directory) folder).put place (.file contents)

/-- The files of a folder. -/
def files (folder : Folder) : List (List String × ByteArray) :=
  folder.entries.entries.filterMap fun (place, entry) =>
    match entry with
    | .directory => none
    | .file contents => some (place, contents)

/-- Follows parts of a path from a place.  The place that they lead to may be empty. -/
def follow (folder : Folder) (place : List String) : List String → Except FileFault Place
  | [] => .ok (.inside place)
  | part :: rest =>
    match folder.get? place with
    | none => .error .missing
    | some (.file _) => .error .notDirectory
    | some .directory =>
      if part = ".." then
        if place.isEmpty then .ok (.outside (outer ⟨"", rest⟩))
        else folder.follow place.dropLast rest
      else if part.utf8ByteSize > longestName then .error .nameTooLong
      else folder.follow (place ++ [part]) rest

/-- Where a path leads. -/
def locate (folder : Folder) (path : Path) : Except FileFault Place :=
  if path.text.utf8ByteSize > longestPath then .error .nameTooLong
  else if path.root.isEmpty then folder.follow [] path.parts
  else .ok (.outside (outer path))

/-- What a path leads to, if anything is there. -/
def find? (folder : Folder) (path : Path) : Except FileFault (Option Entry) :=
  (folder.locate path).map fun
    | .inside place => folder.get? place
    | .outside entry => entry

/-- The folder with something put where a path leads, or as it is if that is outside. -/
def putAt (folder : Folder) (path : Path) (entry : Entry) : Except FileFault Folder :=
  (folder.locate path).map fun
    | .inside place => folder.put place entry
    | .outside _ => folder

/-- The contents of a file. -/
def read (folder : Folder) (path : Path) : Except FileFault ByteArray :=
  match folder.find? path with
  | .error fault => .error fault
  | .ok none => .error .missing
  | .ok (some .directory) => .error .directory
  | .ok (some (.file contents)) => .ok contents

/-- The folder with a new directory. -/
def makeDirectory (folder : Folder) (path : Path) : Except FileFault Folder :=
  match folder.find? path with
  | .error fault => .error fault
  | .ok none => folder.putAt path .directory
  | .ok (some _) => .error .occupied

/-- The folder with a directory, new or old. -/
def keepDirectory (folder : Folder) (path : Path) : Except FileFault Folder :=
  match folder.find? path with
  | .ok (some .directory) => .ok folder
  | _ => folder.makeDirectory path

/-- The folder with a directory and all the directories on the way to it, the parts of which are
given from the last to the first.  The way is only made where it is missing, so a part that
goes up from a new directory is no fault. -/
def provideDirectory (folder : Folder) (root : String) :
    (reversed : List String) → Except FileFault Folder
  | [] => folder.keepDirectory ⟨root, []⟩
  | last :: before =>
    let path : Path := ⟨root, (last :: before).reverse⟩
    match folder.makeDirectory path with
    | .error .missing =>
      (folder.provideDirectory root before).bind fun folder => folder.keepDirectory path
    | _ => folder.keepDirectory path

/-- The folder with a file written, together with the directories on the way to it. -/
def write (folder : Folder) (path : Path) (contents : ByteArray) : Except FileFault Folder :=
  (folder.provideDirectory path.root path.parent.parts.reverse).bind fun folder =>
    match folder.find? path with
    | .error fault => .error fault
    | .ok (some .directory) => .error .directory
    | .ok _ => folder.putAt path (.file contents)

end Folder

end CommandLine
end SmallImp
