/-
# From source text to tree

A source text is scanned, its separators are settled, the phrases are read and their tree is
made.  The first error in the order of the text is the one reported: the tokens before a
character that starts no lexeme are read first, and a separator held back at that place does
not count.
-/
import SmallImp.Diagnostic
import SmallImp.Phrase.Parser
import SmallImp.Phrase.Tree
import SmallImp.Text.Quoted
import SmallImp.Token.Scan
import SmallImp.Token.Separator

namespace SmallImp

/-- Why a source text is no program. -/
inductive SourceError where
  | unexpectedCharacter (c : Char) (place : Position)
  | invalidIdentifier (name : String) (place : Position)
  | unexpectedToken (text : String) (place : Position)
  | unexpectedSeparator (place : Position)
  | unexpectedEnd (place : Position)
  deriving DecidableEq

namespace SourceError

/-- The phase of an error. -/
def phase : SourceError → Phase
  | unexpectedCharacter .. | invalidIdentifier .. => .lexical
  | unexpectedToken .. | unexpectedSeparator .. | unexpectedEnd .. => .grammatical

/-- The place of an error. -/
def place : SourceError → Position
  | unexpectedCharacter _ place | invalidIdentifier _ place | unexpectedToken _ place
  | unexpectedSeparator place | unexpectedEnd place => place

/-- The message of an error. -/
def message : SourceError → String
  | unexpectedCharacter c _ => "unexpected character " ++ Text.quoted (String.singleton c)
  | invalidIdentifier name _ => "invalid identificator '" ++ name ++ "'"
  | unexpectedToken text _ => "unexpected token " ++ Text.quoted text
  | unexpectedSeparator _ => "unexpected command separator"
  | unexpectedEnd _ => "unexpected end of input"

/-- An error as a diagnostic. -/
def diagnostic (error : SourceError) : Diagnostic :=
  ⟨error.phase, error.message, some error.place.line, some error.place.column⟩

/-- The error for a token that no program continues with. -/
def ofToken (token : Token) : SourceError :=
  if token.terminal = .separator then unexpectedSeparator token.block.first
  else unexpectedToken token.text token.block.first

end SourceError

/-- Whether a name is an identifier, or would be were it no keyword. -/
def Identifier.isName (name : String) : Bool :=
  match name.toList with
  | [] => false
  | c :: rest => Scan.isWordStart c && rest.all Scan.isWordPart

/-- The identifier with a name, if it is one. -/
def Identifier.ofName (name : String) (block : Block) : Except SourceError Identifier :=
  if isName name then .ok ⟨name, block⟩ else .error (.invalidIdentifier name block.first)

/-- Where an input that ends too early is said to end: at the start of its last token. -/
def endPlace (tokens : List Token) : Position :=
  match tokens.getLast? with
  | some token => token.block.first
  | none => .origin

/-- The phrases of a source text. -/
def phrasesOf (source : String) : Except SourceError Phrase.Items :=
  let scanned := scan source
  let tokens := separated scanned.tokens
  match Phrase.program tokens, scanned.stop with
  | .error (token :: _), _ => .error (.ofToken token)
  | _, some (c, place) => .error (.unexpectedCharacter c place)
  | .error [], none => .error (.unexpectedEnd (endPlace tokens))
  | .ok items, none => .ok items

/-- The tree of a source text. -/
def parse (source : String) : Except SourceError Command := (phrasesOf source).map (·.tree)

end SmallImp
