import SlotScript.Value
import SlotScript.Diagnostic

/-!
# Errors of a running program

What can go wrong while a program runs, in words, and as a diagnostic. An error carries the span
of the innermost node that failed; one that is raised outside every node has none.
-/

namespace SlotScript

/-- The checked operations on whole numbers. -/
inductive CheckedOp where
  | addition | subtraction | multiplication | division | remainder | negation | leftShift
  | rightShift
deriving DecidableEq, Repr

/-- The operation in words. -/
def CheckedOp.text : CheckedOp → String
  | addition => "addition"
  | subtraction => "subtraction"
  | multiplication => "multiplication"
  | division => "division"
  | remainder => "remainder"
  | negation => "negation"
  | leftShift => "left shift"
  | rightShift => "right shift"

/-- States that a program with resolved names does not reach. -/
inductive Impossible where
  /-- A place that the store does not have. -/
  | badAddress
  /-- A `break` or `continue` at the end of a function's body. -/
  | loopControlInBody
  /-- A `break` or `continue` in a default. -/
  | loopControlInDefault
  /-- A `break` or `continue` at the end of a statement of the program. -/
  | loopControlAtTop
deriving DecidableEq, Repr

/-- The state in words. -/
def Impossible.text : Impossible → String
  | badAddress => "variable address outside the environment chain"
  | loopControlInBody => "loop control escaped a function body"
  | loopControlInDefault => "loop control escaped an expression"
  | loopControlAtTop => "loop control reached the top level"

/-- Why a program stops. -/
inductive Fault where
  /-- A free name that has no global value. -/
  | undefined (name : String)
  /-- A variable read before it was assigned. -/
  | uninitialized (name : String)
  /-- A parameter without an argument and without a default. -/
  | missingArgument (function param : String)
  /-- A call of something that is not a function. -/
  | notCallable (type : ValueType)
  /-- A call with more arguments than parameters. -/
  | tooManyArguments (function : String) (expected got : Nat)
  /-- A value of the wrong type. -/
  | typeMismatch (expected got : ValueType)
  /-- Operands that a binary operator does not take. -/
  | invalidBinary (op : BinaryOp) (left right : ValueType)
  /-- An operand that a unary operator does not take. -/
  | invalidUnary (op : UnaryOp) (operand : ValueType)
  /-- A whole number divided by zero. -/
  | divisionByZero
  /-- The remainder of a division by zero. -/
  | moduloByZero
  /-- A whole-number result beyond 64 bits. -/
  | overflow (operation : CheckedOp)
  /-- A state that a program with resolved names does not reach. -/
  | impossible (state : Impossible)
deriving DecidableEq, Repr

/-- A fault and the node that it was raised in. -/
structure RunError where
  /-- What went wrong. -/
  fault : Fault
  /-- Where. -/
  span : Option Span := none
deriving DecidableEq, Repr

namespace Fault

/-- The fault in one line. -/
def message : Fault → String
  | undefined name => "undefined variable `" ++ name ++ "`"
  | uninitialized name => "variable `" ++ name ++ "` was read before it was assigned"
  | missingArgument function param =>
    "missing argument `" ++ param ++ "` in call to `" ++ function ++ "`"
  | notCallable type => "`" ++ type.text ++ "` value is not callable"
  | tooManyArguments function expected got =>
    "`" ++ function ++ "` takes " ++ toString expected ++ " argument(s) but " ++ toString got ++
      " were supplied"
  | typeMismatch expected got => "expected `" ++ expected.text ++ "`, found `" ++ got.text ++ "`"
  | invalidBinary op left right =>
    "cannot apply `" ++ op.symbol ++ "` to `" ++ left.text ++ "` and `" ++ right.text ++ "`"
  | invalidUnary op operand => "cannot apply `" ++ op.symbol ++ "` to `" ++ operand.text ++ "`"
  | divisionByZero => "division by zero"
  | moduloByZero => "modulo by zero"
  | overflow operation => "integer overflow in " ++ operation.text
  | impossible state => "internal error: " ++ state.text

/-- The code of the fault. -/
def code : Fault → Code
  | undefined _ => .undefinedVariable
  | uninitialized _ => .uninitializedVariable
  | missingArgument .. => .missingArgument
  | notCallable _ => .notCallable
  | tooManyArguments .. => .tooManyArguments
  | typeMismatch .. | invalidBinary .. | invalidUnary .. => .typeMismatch
  | divisionByZero | moduloByZero => .zeroDivisor
  | overflow _ => .integerOverflow
  | impossible _ => .internal

/-- Facts that explain the fault. -/
def notes : Fault → List String
  | undefined _ => ["free names are looked up in the global scope when read"]
  | _ => []

/-- Hints for a repair. -/
def suggestions : Fault → List String
  | missingArgument .. => ["pass the argument or give the parameter a default"]
  | _ => []

end Fault

/-- The error as a diagnostic. -/
def RunError.toDiagnostic (e : RunError) : Diagnostic :=
  { code := e.fault.code
    message := e.fault.message
    labels := (e.span.map fun span => ⟨span, "raised here", true⟩).toList
    notes := e.fault.notes
    suggestions := e.fault.suggestions }

end SlotScript
