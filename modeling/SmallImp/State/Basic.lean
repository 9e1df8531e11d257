/-
# Environments and stores

An environment binds names: a variable to a location, a constant to its value.  A store binds
locations to the values that they hold.
-/
import SmallImp.State.Bindings
import SmallImp.Value

namespace SmallImp

/-- A cell of the store.  Nothing but its identity matters. -/
structure Location where
  index : Int
  deriving DecidableEq, Repr

/-- The text of a location. -/
def Location.text (location : Location) : String := "loc" ++ toString location.index

/-- What a name is bound to. -/
inductive Binding where
  | location (location : Location)
  | value (value : Value)
  deriving DecidableEq

/-- Whether a name bound so is a variable. -/
def Binding.isLocation : Binding → Bool
  | .location _ => true
  | .value _ => false

/-- The meaning of names. -/
abbrev Environment := Bindings String Binding

/-- The contents of locations. -/
abbrev Store := Bindings Location Value

end SmallImp
