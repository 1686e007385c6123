import SlotScript.Value

/-!
# The store

The scopes that a run has opened, and the table of global names. Scopes are only ever added;
each has slots of a fixed number, empty until they are assigned, and a link to the scope around
it. A `Place` seen from a scope denotes a `Cell`: one slot of one scope, or one entry of the
table. Everything is read and written through cells.
-/

namespace SlotScript

/-- A scope of a run. -/
structure Scope where
  /-- What opened it. -/
  kind : ScopeKind
  /-- Its variable slots. -/
  vars : Array (Option Value)
  /-- Its constant slots. -/
  consts : Array (Option Value)
  /-- The scope around it. -/
  parent : Option ScopeId

namespace Scope

/-- A scope with empty slots. -/
def ofShape (shape : Shape) (parent : Option ScopeId) : Scope where
  kind := shape.kind
  vars := Array.replicate shape.vars none
  consts := Array.replicate shape.consts none
  parent := parent

/-- The slots of a class. -/
def slots (scope : Scope) : SlotClass → Array (Option Value)
  | .var => scope.vars
  | .const => scope.consts

/-- The scope with a value in one of its slots. -/
def write (scope : Scope) (slotClass : SlotClass) (index : Nat) (value : Value) : Scope :=
  match slotClass with
  | .var => { scope with vars := scope.vars.setIfInBounds index (some value) }
  | .const => { scope with consts := scope.consts.setIfInBounds index (some value) }

end Scope

/-- The table of global names. No name has two entries. -/
abbrev Globals := List (String × Value)

/-- The table with an entry for `name`, in place of the one it had. -/
def Globals.insert (globals : Globals) (name : String) (value : Value) : Globals :=
  (name, value) :: globals.filter (·.1 != name)

/-- The table with these entries, the later of two for one name. -/
def Globals.ofList (entries : List (String × Value)) : Globals :=
  entries.foldl (fun globals (name, value) => globals.insert name value) []

/-- What a running program remembers. -/
structure Store where
  /-- The scopes by number. -/
  scopes : Array Scope := #[]
  /-- The table of global names. -/
  globals : Globals := []
  /-- How many functions have been made. -/
  closures : Nat := 0

/-- Where a value is kept. -/
inductive Cell where
  /-- A slot of a scope. -/
  | slot (scope : ScopeId) (index : Nat) (slotClass : SlotClass)
  /-- An entry of the table of global names. -/
  | global (name : String)
deriving DecidableEq, Repr

/-- Why a variable cannot be read or written. -/
inductive AccessError where
  /-- A global name without an entry. -/
  | undefined
  /-- A slot that was never assigned. -/
  | uninitialized
  /-- A place that denotes no cell. -/
  | badAddress
deriving DecidableEq, Repr

namespace Store

/-- Opens a scope. Its number is one that no scope had before. -/
def openScope (store : Store) (shape : Shape) (parent : Option ScopeId) : ScopeId × Store :=
  (store.scopes.size, { store with scopes := store.scopes.push (.ofShape shape parent) })

/-- The scope that is `distance` links outwards. -/
def ancestor (store : Store) : (distance : Nat) → ScopeId → Option ScopeId
  | 0, id => some id
  | distance + 1, id =>
    match store.scopes[id]? with
    | some { parent := some parent, .. } => ancestor store distance parent
    | _ => none

/-- The cell that a place denotes when it is seen from a scope. -/
def cell? (store : Store) (id : ScopeId) (place : Place) (name : String) : Option Cell :=
  match place with
  | .unresolved => none
  | .global => some (.global name)
  | .slot distance index slotClass =>
    match store.ancestor distance id with
    | none => none
    | some target =>
      match store.scopes[target]? with
      | none => none
      | some scope =>
        if index < (scope.slots slotClass).size then some (.slot target index slotClass)
        else none

/-- The value in a cell, if it has one. -/
def read (store : Store) : Cell → Option Value
  | .slot id index slotClass =>
    (store.scopes[id]?.bind fun scope => (scope.slots slotClass)[index]?).join
  | .global name => store.globals.lookup name

/-- Puts a value into a cell. -/
def write (store : Store) (cell : Cell) (value : Value) : Store :=
  match cell with
  | .slot id index slotClass =>
    { store with scopes := store.scopes.modify id (·.write slotClass index value) }
  | .global name => { store with globals := store.globals.insert name value }

/-- Reads the variable at a place. -/
def lookup (store : Store) (id : ScopeId) (place : Place) (name : String) :
    Except AccessError Value :=
  match store.cell? id place name with
  | none => .error .badAddress
  | some cell =>
    match store.read cell, cell with
    | some value, _ => .ok value
    | none, .slot .. => .error .uninitialized
    | none, .global _ => .error .undefined

/-- Writes the variable at a place. -/
def assign (store : Store) (id : ScopeId) (place : Place) (name : String) (value : Value) :
    Except AccessError Store :=
  match store.cell? id place name with
  | none => .error .badAddress
  | some cell => .ok (store.write cell value)

/-- Makes a value reachable by name from everywhere. -/
def publish (store : Store) (name : String) (value : Value) : Store :=
  store.write (.global name) value

/-- What opened a scope. -/
def kindOf (store : Store) (id : ScopeId) : Option ScopeKind :=
  store.scopes[id]?.map (·.kind)

end Store

end SlotScript
