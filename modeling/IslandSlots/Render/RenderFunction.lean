import IslandSlots.Script.Syntax

/-!
# The render function of a module

The first top-level function with one of the wanted names: a declared function, exported or not,
or a variable that a function is assigned to where it is declared.
-/

namespace IslandSlots.Script

/-- The parts of a function that is declared or assigned. -/
def functionBody? : Expr → Option (List Statement)
  | .function _ _ (.block statements) => some statements
  | .function _ _ (.expression value) => some [.expression value]
  | .paren _ inner => functionBody? inner
  | _ => none

/-- The body of the first variable with one of the names that is a function. -/
def declaredBody? (names : List String) : List Declarator → Option (List Statement)
  | [] => none
  | .bare _ :: declarators => declaredBody? names declarators
  | .initialized pattern value :: declarators =>
    match if names.contains pattern then functionBody? value else none with
    | some body => some body
    | none => declaredBody? names declarators

/-- The body of the function with one of the names that a declaration makes. -/
def namedBody? (names : List String) : Statement → Option (List Statement)
  | .function name _ body => if names.contains name then some body else none
  | .variables declarators => declaredBody? names declarators
  | _ => none

/-- The body of the function with one of the names that a top-level statement makes. -/
def topLevelBody? (names : List String) : Statement → Option (List Statement)
  | .exported _ declaration => namedBody? names declaration
  | .exportedDefault _ (.function name _ body) =>
    if names.contains name then some body else none
  | .exportedDefault _ _ => none
  | statement => namedBody? names statement

/-- The body of the first render function of a module. -/
def renderBody? (names : List String) (module : List Statement) : Option (List Statement) :=
  module.findSome? (topLevelBody? names)

end IslandSlots.Script
