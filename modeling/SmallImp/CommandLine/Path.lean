/-
# Paths

A path is a root and the names of its parts.  Slashes that are not needed and parts that stay
where they are, written `.`, do not belong to it; a part that goes up, written `..`, does.
-/

namespace SmallImp
namespace CommandLine

/-- A path: relative with an empty root, absolute with one of slashes. -/
structure Path where
  root : String
  parts : List String
  deriving DecidableEq

namespace Path

/-- The root of a text with so many slashes in front: two are a root of their own, any other
number of them stands for one. -/
def rootOf (slashes : Nat) : String :=
  if slashes = 0 then "" else if slashes = 2 then "//" else "/"

/-- The path that a text stands for. -/
def ofText (text : String) : Path :=
  ⟨rootOf (text.toList.takeWhile (· == '/')).length,
    (text.splitOn "/").filter fun part => part != "" && part != "."⟩

/-- The text of a path, with one slash between two parts. -/
def text (path : Path) : String :=
  let whole := path.root ++ "/".intercalate path.parts
  if whole.isEmpty then "." else whole

/-- The path without its last part. -/
def parent (path : Path) : Path := { path with parts := path.parts.dropLast }

end Path

end CommandLine
end SmallImp
