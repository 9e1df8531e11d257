/-
# Scanning

`scan` splits a source text into tokens.  At each place the longest lexeme counts; blanks
between lexemes are dropped.  Scanning stops at the first place where no lexeme starts, and
the tokens before it are kept.

The scanner walks the characters one by one.  `pending` is the number of characters ahead
that belong to the lexeme last emitted, so the walk is a recursion on the text.
-/
import SmallImp.Token.Terminal

namespace SmallImp

/-- What scanning gives: the tokens, and the character that stopped it with its place. -/
structure Scan where
  tokens : List Token
  stop : Option (Char × Position)
  deriving DecidableEq, Repr

namespace Scan

/-- Space, tab and form feed separate lexemes and are no part of any. -/
def isBlank (c : Char) : Bool := c == ' ' || c == '\t' || c == '\x0c'

/-- What a word starts with: an ASCII letter or an underscore. -/
def isWordStart (c : Char) : Bool := c.isAlpha || c == '_'

/-- What a word goes on with: also an ASCII digit. -/
def isWordPart (c : Char) : Bool := isWordStart c || c.isDigit

/-- The length of the number at the start of a text: digits, and a point with more digits
where both follow. -/
def numberLength (text : List Char) : Nat :=
  let whole := text.takeWhile Char.isDigit
  match text.drop whole.length with
  | '.' :: rest =>
    let fraction := rest.takeWhile Char.isDigit
    if fraction.isEmpty then whole.length else whole.length + 1 + fraction.length
  | _ => whole.length

/-- The operator, bracket or line end at the start of a text, with its length. -/
def symbol? : List Char → Option (Terminal × Nat)
  | '&' :: '&' :: _ => some (.and, 2)
  | '|' :: '|' :: _ => some (.or, 2)
  | '=' :: '=' :: _ => some (.equal, 2)
  | '!' :: '=' :: _ => some (.notEqual, 2)
  | '<' :: '=' :: _ => some (.lessOrEqual, 2)
  | '>' :: '=' :: _ => some (.greaterOrEqual, 2)
  | '/' :: '/' :: _ => some (.floorSlash, 2)
  | '\r' :: '\n' :: _ => some (.newline, 2)
  | '=' :: _ => some (.assign, 1)
  | '!' :: _ => some (.not, 1)
  | '<' :: _ => some (.less, 1)
  | '>' :: _ => some (.greater, 1)
  | '/' :: _ => some (.slash, 1)
  | '+' :: _ => some (.plus, 1)
  | '-' :: _ => some (.minus, 1)
  | '*' :: _ => some (.star, 1)
  | '%' :: _ => some (.percent, 1)
  | '^' :: _ => some (.caret, 1)
  | '(' :: _ => some (.leftParen, 1)
  | ')' :: _ => some (.rightParen, 1)
  | '\x7b' :: _ => some (.leftBrace, 1)
  | '\x7d' :: _ => some (.rightBrace, 1)
  | ',' :: _ => some (.comma, 1)
  | ':' :: _ => some (.colon, 1)
  | ';' :: _ => some (.semicolon, 1)
  | '\n' :: _ => some (.newline, 1)
  | _ => none

/-- The longest lexeme at the start of a text, as its terminal and its length. -/
def lexeme? (text : List Char) : Option (Terminal × Nat) :=
  match text with
  | [] => none
  | c :: _ =>
    if isWordStart c then
      let word := text.takeWhile isWordPart
      some (.ofWord (String.ofList word), word.length)
    else if c.isDigit then some (.number, numberLength text)
    else symbol? text

/-- Puts a token in front. -/
def cons (token : Token) (scan : Scan) : Scan := { scan with tokens := token :: scan.tokens }

/-- Scans a text that starts at a place, after `pending` characters of the last lexeme. -/
def scanFrom : (text : List Char) → (pending : Nat) → (place : Position) → Scan
  | [], _, _ => ⟨[], none⟩
  | c :: rest, pending + 1, place => scanFrom rest pending (place.next c)
  | c :: rest, 0, place =>
    if isBlank c then scanFrom rest 0 (place.next c)
    else match lexeme? (c :: rest) with
      | none => ⟨[], some (c, place)⟩
      | some (terminal, length) =>
        let lexeme := (c :: rest).take length
        cons ⟨terminal, String.ofList lexeme, place, place.advance lexeme⟩
          (scanFrom rest (length - 1) (place.next c))

end Scan

/-- The tokens of a source text. -/
def scan (source : String) : Scan := Scan.scanFrom source.toList 0 .origin

end SmallImp
