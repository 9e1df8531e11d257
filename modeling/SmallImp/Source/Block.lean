/-
# Positions and blocks

A position is a line and a column, both counted from one.  A block is a range of source
text, from its first position up to, and without, its last.  Blocks join by `union`, the
smallest block that covers both.
-/

namespace SmallImp

/-- A place in a source text. -/
structure Position where
  line : Int
  column : Int
  deriving DecidableEq, Repr

namespace Position

/-- The start of a text. -/
def origin : Position := ⟨1, 1⟩

/-- Whether one position stands before another: on an earlier line, or earlier on one line. -/
def before (p q : Position) : Bool :=
  p.line < q.line || (p.line == q.line && p.column < q.column)

/-- The earlier of two positions. -/
def min (p q : Position) : Position := if q.before p then q else p

/-- The later of two positions. -/
def max (p q : Position) : Position := if p.before q then q else p

/-- The position after a character.  Only a line feed starts a line. -/
def next (p : Position) (c : Char) : Position :=
  if c = '\n' then ⟨p.line + 1, 1⟩ else ⟨p.line, p.column + 1⟩

/-- The position after a piece of text. -/
def advance (p : Position) (text : List Char) : Position := text.foldl next p

end Position

/-- A range of source text. -/
structure Block where
  first : Position
  last : Position
  deriving DecidableEq, Repr

namespace Block

/-- The empty block at the start of a text, for what has no place of its own. -/
def origin : Block := ⟨.origin, .origin⟩

/-- The empty block before a block. -/
def start (b : Block) : Block := ⟨b.first, b.first⟩

/-- The empty block after a block. -/
def finish (b : Block) : Block := ⟨b.last, b.last⟩

/-- The block from the start of one block to the end of another. -/
def through (a b : Block) : Block := ⟨a.first, b.last⟩

/-- The smallest block that covers two. -/
def union (a b : Block) : Block := ⟨a.first.min b.first, a.last.max b.last⟩

/-- The smallest block that covers a block and a list of more. -/
def spanning (b : Block) (more : List Block) : Block := more.foldl union b

end Block

end SmallImp
