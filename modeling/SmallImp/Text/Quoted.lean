/-
# Quoted text

Text inside a message stands in quotes.  The quote is single unless the text holds a single
and no double quote; the quote in use and the backslash are escaped by a backslash, tab and
the two line ends have names, and every other unprintable character is written by its code
in two, four or eight hexadecimal digits.
-/
import SmallImp.Text.Printable

namespace SmallImp
namespace Text

/-- A number in lower-case hexadecimal digits with zeros in front up to a width. -/
def hexadecimal (width n : Nat) : List Char :=
  let digits := Nat.toDigits 16 n
  List.replicate (width - digits.length) '0' ++ digits

/-- One character between a pair of the given quotes. -/
def quotedChar (quote c : Char) : List Char :=
  if c = quote ∨ c = '\\' then ['\\', c]
  else if c = '\t' then ['\\', 't']
  else if c = '\n' then ['\\', 'n']
  else if c = '\r' then ['\\', 'r']
  else if isPrintable c then [c]
  else if c.toNat ≤ 0xff then ['\\', 'x'] ++ hexadecimal 2 c.toNat
  else if c.toNat ≤ 0xffff then ['\\', 'u'] ++ hexadecimal 4 c.toNat
  else ['\\', 'U'] ++ hexadecimal 8 c.toNat

/-- The quote that a text takes. -/
def quoteFor (text : List Char) : Char :=
  if '\'' ∈ text ∧ '"' ∉ text then '"' else '\''

/-- A text in quotes. -/
def quoted (text : String) : String :=
  let quote := quoteFor text.toList
  String.ofList (quote :: (text.toList.flatMap (quotedChar quote) ++ [quote]))

end Text
end SmallImp
