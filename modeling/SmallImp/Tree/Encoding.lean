/-
# Trees as JSON

A node is written as an object: its kind and the family of the kind, its block, what its
label says beyond the kind, and its children.
-/
import SmallImp.Tree.Basic
import SmallImp.Text.Json

namespace SmallImp

/-- A block as an object. -/
def Block.encode (block : Block) : Json :=
  .object
    [("first_line", .integer block.first.line), ("first_column", .integer block.first.column),
     ("last_line", .integer block.last.line), ("last_column", .integer block.last.column)]

/-- What a label says beyond the kind. -/
def Label.encode : Label → List (String × Json)
  | .plain _ => []
  | .value ty lexeme => [("value", .string lexeme), ("type", .string ty.name)]
  | .type ty => [("type", .string ty.name)]
  | .identifier name => [("identificator", .string name)]
  | .operator _ symbol => [("operator", .string symbol)]

mutual

/-- A node and what is below it. -/
def Node.encode : Node → Json
  | .mk label block children =>
    .object
      ([("kind", .string label.kind.name), ("kind_family", .string label.kind.family),
        ("block", block.encode)] ++ label.encode ++ [("children", .array (encodeAll children))])

/-- A list of nodes. -/
def Node.encodeAll : List Node → List Json
  | [] => []
  | node :: rest => node.encode :: encodeAll rest

end

/-- The text of a tree. -/
def Node.dump (node : Node) : String := node.encode.text

end SmallImp
