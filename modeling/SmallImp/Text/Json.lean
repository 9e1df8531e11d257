/-
# JSON documents

A document is a string, an integer, an array or an object whose fields keep their order.
`text` writes it with one item a line, indented by four spaces a level, in ASCII only: a
character outside the printable ASCII range is escaped, one above `U+FFFF` as two halves.
-/

namespace SmallImp

/-- A JSON document. -/
inductive Json where
  | string (text : String)
  | integer (value : Int)
  | array (items : List Json)
  | object (fields : List (String × Json))

namespace Json

/-- The escape for one unit of sixteen bits. -/
def escapedUnit (unit : Nat) : List Char :=
  let digits := Nat.toDigits 16 unit
  ['\\', 'u'] ++ List.replicate (4 - digits.length) '0' ++ digits

/-- A character inside a string. -/
def escapedChar (c : Char) : List Char :=
  if c = '"' then ['\\', '"']
  else if c = '\\' then ['\\', '\\']
  else if c = '\n' then ['\\', 'n']
  else if c = '\r' then ['\\', 'r']
  else if c = '\t' then ['\\', 't']
  else if c = '\x0c' then ['\\', 'f']
  else if c = '\x08' then ['\\', 'b']
  else if 0x20 ≤ c.toNat ∧ c.toNat < 0x7f then [c]
  else if c.toNat < 0x10000 then escapedUnit c.toNat
  else
    let rest := c.toNat - 0x10000
    escapedUnit (0xd800 + rest / 0x400) ++ escapedUnit (0xdc00 + rest % 0x400)

/-- A string in quotes. -/
def quoted (text : String) : List Char := '"' :: (text.toList.flatMap escapedChar ++ ['"'])

/-- An integer in decimal. -/
def decimal (value : Int) : List Char :=
  (if value < 0 then ['-'] else []) ++ Nat.toDigits 10 value.natAbs

/-- The start of a line at a level. -/
def line (level : Nat) : List Char := '\n' :: List.replicate (4 * level) ' '

/-- A key, up to its value. -/
def label (key : String) : List Char := quoted key ++ [':', ' ']

mutual

/-- A document that starts at a level, in front of more text. -/
def write (level : Nat) : Json → List Char → List Char
  | .string text, rest => quoted text ++ rest
  | .integer value, rest => decimal value ++ rest
  | .array [], rest => '[' :: ']' :: rest
  | .array (item :: items), rest =>
    '[' :: (line (level + 1) ++ write (level + 1) item
      (writeItems (level + 1) items (line level ++ ']' :: rest)))
  | .object [], rest => '\x7b' :: '\x7d' :: rest
  | .object ((key, value) :: fields), rest =>
    '\x7b' :: (line (level + 1) ++ (label key ++ write (level + 1) value
      (writeFields (level + 1) fields (line level ++ '\x7d' :: rest))))

/-- The items after the first, each after a comma. -/
def writeItems (level : Nat) : List Json → List Char → List Char
  | [], rest => rest
  | item :: items, rest =>
    ',' :: (line level ++ write level item (writeItems level items rest))

/-- The fields after the first, each after a comma. -/
def writeFields (level : Nat) : List (String × Json) → List Char → List Char
  | [], rest => rest
  | (key, value) :: fields, rest =>
    ',' :: (line level ++ (label key ++ write level value (writeFields level fields rest)))

end

/-- The text of a document. -/
def text (document : Json) : String := String.ofList (document.write 0 [])

end Json

end SmallImp
