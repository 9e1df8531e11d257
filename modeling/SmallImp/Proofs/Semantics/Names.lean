/-
# The names in a phrase

A declaration binds names for what is in its scope: a later part of its group, or the command
that it stands over.  A name is free in a phrase if it occurs there outside the scope of all
declarations of the same name in the phrase (`free`), so a first value and the parts of a group
before it never see the name that is declared.  The targets of a command are the free names that
it assigns to (`targets`).

A phrase without meaning has no names.
-/
import SmallImp.Tree.Basic

namespace SmallImp

/-- Names but for those that a declaration binds. -/
def outside (bound names : List String) : List String := names.filter (· ∉ bound)

@[simp]
theorem mem_outside {bound names : List String} {name : String} :
    name ∈ outside bound names ↔ name ∈ names ∧ name ∉ bound := by
  simp [outside]

/-- The names in an expression. -/
def Expr.names : Expr → List String
  | .value .. | .unknown _ => []
  | .identifier name _ => [name.name]
  | .unary _ operand _ => operand.names
  | .binary left _ right _ => left.names ++ right.names
  | .parenthesis inner _ => inner.names

/-- The names that a declaration binds. -/
def Declaration.bound : Declaration → List String
  | .nil _ | .unknown _ => []
  | .variable name _ _ _ | .constant name _ _ _ => [name.name]
  | .group first second _ => first.bound ++ second.bound

/-- The names that are free in a declaration. -/
def Declaration.free : Declaration → List String
  | .nil _ | .unknown _ => []
  | .variable _ _ value _ | .constant _ _ value _ => value.names
  | .group first second _ => first.free ++ outside first.bound second.free

/-- The names that are free in a command. -/
def Command.free : Command → List String
  | .nil _ | .unknown _ => []
  | .scope declaration body _ => declaration.free ++ outside declaration.bound body.free
  | .sequence first second _ => first.free ++ second.free
  | .assign target value _ => target.name :: value.names
  | .branch condition body _ | .loop condition body _ => condition.names ++ body.free
  | .branchElse condition body otherwise _ => condition.names ++ (body.free ++ otherwise.free)
  | .print value _ => value.names

/-- The free names that a command assigns to. -/
def Command.targets : Command → List String
  | .nil _ | .print .. | .unknown _ => []
  | .scope declaration body _ => outside declaration.bound body.targets
  | .sequence first second _ => first.targets ++ second.targets
  | .assign target _ _ => [target.name]
  | .branch _ body _ | .loop _ body _ => body.targets
  | .branchElse _ body otherwise _ => body.targets ++ otherwise.targets

end SmallImp
