import SlotScript.Tree
import SlotScript.Text.Quoted
import SlotScript.Decimal.Written

/-!
# Values

What a node evaluates to. A function value holds the parts of its definition, the scope that
the definition ran in, and a number of its own: two function values are the same when they come
from the same execution of a definition.
-/

namespace SlotScript

/-- The types of values. -/
inductive ValueType where
  | null | bool | int | float | str | function
deriving DecidableEq, Repr

/-- The type as messages name it. -/
def ValueType.text : ValueType → String
  | null => "null"
  | bool => "bool"
  | int => "int"
  | float => "float"
  | str => "str"
  | function => "function"

/-- The number of a scope in the store. -/
abbrev ScopeId := Nat

/-- A function that a definition has made. -/
structure Closure where
  /-- Tells function values apart. -/
  id : Nat
  /-- The name that the definition gives it. -/
  name : String
  /-- Its parameters. -/
  params : List Param
  /-- What a call runs. -/
  body : Node
  /-- The shape of a call's scope. -/
  frame : Shape
  /-- The scope that the definition ran in. -/
  captured : ScopeId
  /-- Where the definition stands. -/
  span : Span

/-- A value. -/
inductive Value where
  /-- Nothing. -/
  | null
  /-- A truth value. -/
  | bool (value : Bool)
  /-- A whole number of 64 bits. -/
  | int (value : Int64)
  /-- A double. -/
  | float (value : Float)
  /-- A text. -/
  | str (text : String)
  /-- A function. -/
  | function (closure : Closure)

instance : Inhabited Value := ⟨.null⟩

namespace Value

/-- The type of a value. -/
def type : Value → ValueType
  | null => .null
  | bool _ => .bool
  | int _ => .int
  | float _ => .float
  | str _ => .str
  | function _ => .function

/-- The value as a program's result is shown. -/
def text : Value → String
  | null => "null"
  | bool value => if value then "true" else "false"
  | int value => toString value.toInt
  | float value => Decimal.plain value.toBits
  | str text => text
  | function closure => "<function " ++ closure.name ++ ">"

/-- The value as listings show it: texts are quoted. -/
def listed : Value → String
  | str text => Text.quote text
  | value => value.text

/-- Same type and same value. Functions are the same if one definition made them at once. -/
def sameAs : Value → Value → Bool
  | null, null => true
  | bool a, bool b => a == b
  | int a, int b => a == b
  | float a, float b => a == b
  | str a, str b => a == b
  | function a, function b => a.id == b.id
  | _, _ => false

/-- Like `sameAs`, but a whole number and a double are compared as doubles. -/
def equals : Value → Value → Bool
  | int a, float b => a.toFloat == b
  | float a, int b => b.toFloat == a
  | a, b => a.sameAs b

end Value

end SlotScript
