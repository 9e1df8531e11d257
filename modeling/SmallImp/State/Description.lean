/-
# Describing bindings

A map is described by its name and its entries in order, with names in quotes, locations by
their index and numbers in the layout `Layout.described`.
-/
import SmallImp.State.Basic
import SmallImp.Text.Quoted

namespace SmallImp

/-- The description of a location. -/
def Location.description (location : Location) : String :=
  "Location(index=" ++ toString location.index ++ ")"

/-- The description of a value. -/
def Value.description : Value → String
  | .number value => String.ofList (Layout.described.number value)
  | .boolean value => if value then "True" else "False"

/-- The description of what a name is bound to. -/
def Binding.description : Binding → String
  | .location cell => cell.description
  | .value held => held.description

/-- Whether two names are bound to the same location or to equal values.  Here a value is equal
to itself even where no value equals it as a number. -/
def Binding.equal : Binding → Binding → Bool
  | .location a, .location b => a == b
  | .value a, .value b => a == b || a.equal b
  | _, _ => false

/-- A key of either kind of map. -/
inductive Key where
  | name (name : String)
  | location (location : Location)
  deriving DecidableEq

/-- The description of a key. -/
def Key.description : Key → String
  | .name text => Text.quoted text
  | .location cell => cell.description

/-- The description of a map with a title. -/
def Bindings.description (title : String) (map : Bindings Key Binding) : String :=
  let entry := fun (key, binding) => Key.description key ++ ": " ++ Binding.description binding
  title ++ "(\x7b" ++ ", ".intercalate (map.entries.map entry) ++ "\x7d)"

end SmallImp
