/-!
# Scopes, slots and places

What the running program needs to know about variables without their names. Each scope has a
`Shape`: what opened it, and how many slots for variables and for constants it holds. A variable
is reached through a `Place`: so many scopes outwards, and a slot there, or the table of global
names.
-/

namespace SlotScript

/-- What opens a scope. -/
inductive ScopeKind where
  /-- The program. -/
  | program
  /-- A call of a function. -/
  | function
  /-- The header of a loop. -/
  | header
  /-- A branch, or one round of a loop's body. -/
  | body
deriving DecidableEq, Repr, Inhabited

/-- The size of a scope. -/
structure Shape where
  /-- What opens the scope. -/
  kind : ScopeKind
  /-- How many variable slots it has. -/
  vars : Nat := 0
  /-- How many constant slots it has. -/
  consts : Nat := 0
deriving DecidableEq, Repr, Inhabited

/-- The shape of every scope before names are resolved. -/
def Shape.blank : Shape := ⟨.program, 0, 0⟩

/-- Whether a slot can be assigned again. -/
inductive SlotClass where
  | var | const
deriving DecidableEq, Repr, Inhabited

/-- Where a variable is found. -/
inductive Place where
  /-- Not known yet. -/
  | unresolved
  /-- In a slot of the scope that is `distance` links outwards. -/
  | slot (distance index : Nat) (slotClass : SlotClass)
  /-- In the table of global names, under the variable's name. -/
  | global
deriving DecidableEq, Repr, Inhabited

/-- How an occurrence of a name is meant. -/
inductive RefKind where
  /-- It makes a new slot. -/
  | declare
  /-- It means a variable that is there already. -/
  | reference
deriving DecidableEq, Repr, Inhabited

/-- An occurrence of a variable. -/
structure VarRef where
  /-- How the occurrence is meant. -/
  kind : RefKind
  /-- Where the variable is found. -/
  place : Place
deriving DecidableEq, Repr, Inhabited

/-- An occurrence whose place is not known yet. -/
def VarRef.unresolved : VarRef := ⟨.reference, .unresolved⟩

/-- The keyword in front of an assignment. -/
inductive DeclKind where
  /-- None: the variable is declared only if no scope has it. -/
  | plain
  /-- A new variable. -/
  | var
  /-- A new constant. -/
  | const
deriving DecidableEq, Repr, Inhabited

/-- A place as listings show it. -/
def Place.text : Place → String
  | unresolved => "?"
  | slot distance index .var => "(" ++ toString distance ++ ", " ++ toString index ++ ")"
  | slot distance index .const => "(" ++ toString distance ++ ", const " ++ toString index ++ ")"
  | global => "global"

end SlotScript
