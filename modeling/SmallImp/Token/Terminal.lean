/-
# Terminals and tokens

A terminal is a class of lexemes.  A token is one lexeme: its terminal, its text and the
block it covers.
-/
import SmallImp.Source.Block

namespace SmallImp

/-- The classes of lexemes. -/
inductive Terminal where
  | letWord | constWord | ifWord | thenWord | elseWord | whileWord | doWord | forWord | printWord
  | numWord | boolWord | trueWord | falseWord
  | leftParen | rightParen | leftBrace | rightBrace | comma | colon | assign
  | and | or | equal | notEqual | lessOrEqual | greaterOrEqual | not | less | greater
  | plus | minus | star | floorSlash | slash | percent | caret
  | number | identifier | newline | semicolon
  /-- What is left of a run of newlines and semicolons. -/
  | separator
  /-- A class that no lexeme of the language is in. -/
  | foreign (name : String)
  deriving DecidableEq, Repr

/-- A lexeme with its place. -/
structure Token where
  terminal : Terminal
  text : String
  block : Block
  deriving DecidableEq, Repr

namespace Terminal

/-- The words that are not identifiers. -/
def keywords : List (String × Terminal) :=
  [("let", letWord), ("const", constWord), ("if", ifWord), ("then", thenWord),
   ("else", elseWord), ("while", whileWord), ("do", doWord), ("for", forWord),
   ("print", printWord), ("num", numWord), ("bool", boolWord), ("true", trueWord),
   ("false", falseWord)]

/-- The terminal of a whole word: its own for a keyword, else an identifier's. -/
def ofWord (word : String) : Terminal := (keywords.lookup word).getD identifier

end Terminal

end SmallImp
