/-!
# Operators

The binary and unary operators, the symbols they are written with, and how tightly they bind.
A greater precedence binds tighter. Every open parenthesis around an operator raises its
precedence by `groupWeight`, which exceeds every precedence in the table, so that what stands in
parentheses is folded first.
-/

namespace SlotScript

/-- Operators between two operands. -/
inductive BinaryOp where
  | add | sub | mul | div | rem
  | eq | ne | strictEq | strictNe
  | lt | le | gt | ge
  | and | or
  | bitAnd | bitOr | bitXor | shl | shr
deriving DecidableEq, Repr, Inhabited

/-- Operators in front of one operand. -/
inductive UnaryOp where
  | not | neg
deriving DecidableEq, Repr, Inhabited

/-- What one open parenthesis adds to the precedence of the operators inside it. -/
def groupWeight : Nat := 1000

/-- Precedence of `return`, the loosest operator. -/
def returnPrecedence : Nat := 1

/-- Precedence of every compound assignment. -/
def compoundPrecedence : Nat := 2

/-- The greatest precedence there is: further parentheses do not raise it. -/
def precedenceLimit : Nat := 4294967295

/-- Precedence of an operator with `base` precedence under `depth` open parentheses. -/
def effectivePrecedence (base depth : Nat) : Nat :=
  min (base + depth * groupWeight) precedenceLimit

namespace BinaryOp

/-- Every binary operator. -/
def all : List BinaryOp :=
  [add, sub, mul, div, rem, eq, ne, strictEq, strictNe, lt, le, gt, ge, and, or,
   bitAnd, bitOr, bitXor, shl, shr]

/-- How the operator is written. -/
def symbol : BinaryOp → String
  | add => "+"
  | sub => "-"
  | mul => "*"
  | div => "/"
  | rem => "%"
  | eq => "=="
  | ne => "!="
  | strictEq => "==="
  | strictNe => "!=="
  | lt => "<"
  | le => "<="
  | gt => ">"
  | ge => ">="
  | and => "&&"
  | or => "||"
  | bitAnd => "&"
  | bitOr => "|"
  | bitXor => "^"
  | shl => "<<"
  | shr => ">>"

/-- How tightly the operator binds outside parentheses. -/
def precedence : BinaryOp → Nat
  | mul | div | rem => 100
  | add | sub => 50
  | shl | shr => 40
  | lt | le | gt | ge => 25
  | eq | ne | strictEq | strictNe => 20
  | bitAnd => 12
  | bitXor => 11
  | bitOr => 10
  | and | or => 5

/-- Whether the left operand can settle the result alone. -/
def isShortCircuit : BinaryOp → Bool
  | and | or => true
  | _ => false

/-- The operator written with `symbol`. -/
def ofSymbol? (symbol : String) : Option BinaryOp :=
  all.find? fun op => op.symbol == symbol

/-- The operators that have a compound assignment. -/
def compounds : List BinaryOp :=
  [add, sub, mul, div, rem, bitAnd, bitXor, bitOr, shl, shr]

/-- How the operator's compound assignment is written. -/
def compoundSymbol (op : BinaryOp) : String := op.symbol ++ "="

/-- The operator whose compound assignment is written with `symbol`. -/
def ofCompoundSymbol? (symbol : String) : Option BinaryOp :=
  compounds.find? fun op => op.compoundSymbol == symbol

end BinaryOp

namespace UnaryOp

/-- How the operator is written. -/
def symbol : UnaryOp → String
  | not => "!"
  | neg => "-"

/-- How tightly the operator binds outside parentheses. -/
def precedence : UnaryOp → Nat
  | not | neg => 200

/-- The operator that `symbol` means wherever it stands. A `-` may also be binary, so it is
not in this table. -/
def ofSymbol? (symbol : String) : Option UnaryOp :=
  if symbol == not.symbol then some not else none

end UnaryOp

end SlotScript
