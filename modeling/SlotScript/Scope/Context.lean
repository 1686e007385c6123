import SlotScript.Scope

/-!
# Open scopes while names are resolved

A context is a scope as it looks at one point of the program: the names declared in it so far
and the slots given out. A later declaration of a name hides an earlier one, and every
declaration takes the next slot of its class. `Place.find` looks a name up from the innermost
context outwards.
-/

namespace SlotScript

/-- A scope at one point of the program. -/
structure Context where
  /-- The slots given out so far. -/
  shape : Shape
  /-- The names declared so far with their slots, the latest first. -/
  names : List (String × SlotClass × Nat) := []

namespace Context

/-- A scope that has just been opened. -/
def fresh (kind : ScopeKind) : Context := { shape := { kind := kind } }

/-- The slot that the next declaration of a class takes. -/
def nextSlot (c : Context) : SlotClass → Nat
  | .var => c.shape.vars
  | .const => c.shape.consts

/-- The shape with one more slot of a class. -/
def grow (shape : Shape) : SlotClass → Shape
  | .var => { shape with vars := shape.vars + 1 }
  | .const => { shape with consts := shape.consts + 1 }

/-- Declares a name in the scope. -/
def declare (c : Context) (name : String) (slotClass : SlotClass) : VarRef × Context :=
  (⟨.declare, .slot 0 (c.nextSlot slotClass) slotClass⟩,
   { shape := grow c.shape slotClass
     names := (name, slotClass, c.nextSlot slotClass) :: c.names })

/-- Declares a function's parameters, each in a variable slot. -/
def declareAll (c : Context) (names : List String) : Context :=
  names.foldl (fun c name => (c.declare name .var).2) c

/-- The slot of a name that the scope declares. -/
def find? (c : Context) (name : String) : Option (SlotClass × Nat) := c.names.lookup name

end Context

/-- Where a name is found, looking from the innermost of the open scopes outwards; `distance` is
that of the innermost one. A name that none declares is global. -/
def Place.findFrom (name : String) (distance : Nat) : List Context → Place
  | [] => .global
  | c :: outer =>
    match c.find? name with
    | some (slotClass, index) => .slot distance index slotClass
    | none => findFrom name (distance + 1) outer

/-- Where a name is found from the innermost of the open scopes. -/
def Place.find (name : String) (contexts : List Context) : Place := findFrom name 0 contexts

end SlotScript
