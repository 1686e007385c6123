import SlotScript.Machine.Fault

/-!
# Operators on values

Whole numbers are checked: a result beyond 64 bits is an error and never wraps. A shift is the
exception: its amount is checked, but the bits that a left shift moves out are lost. Doubles
follow IEEE 754. A whole number beside a double is taken as a double. Texts can be joined and
compared character by character. Every other pair of types only has equality.
-/

namespace SlotScript

/-- The whole number `n`, if it has 64 bits. -/
def checkedInt (operation : CheckedOp) (n : Int) : Except Fault Value :=
  if Int64.minValue.toInt ≤ n ∧ n ≤ Int64.maxValue.toInt then .ok (.int (Int64.ofInt n))
  else .error (.overflow operation)

/-- The quotient cut off toward zero. -/
def divideInt (a b : Int64) : Except Fault Value :=
  if b = 0 then .error .divisionByZero else checkedInt .division (a.toInt.tdiv b.toInt)

/-- The remainder of the quotient cut off toward zero. It overflows when the quotient does. -/
def remainderInt (a b : Int64) : Except Fault Value :=
  if b = 0 then .error .moduloByZero
  else if a = Int64.minValue ∧ b = -1 then .error (.overflow .remainder)
  else .ok (.int (Int64.ofInt (a.toInt.tmod b.toInt)))

/-- A shift by an amount that has to be less than the number of bits. -/
def shiftInt (operation : CheckedOp) (shift : Int64 → Int64 → Int64) (a b : Int64) :
    Except Fault Value :=
  if 0 ≤ b.toInt ∧ b.toInt < 64 then .ok (.int (shift a b)) else .error (.overflow operation)

/-- An operator on two whole numbers; none if it does not apply to them. -/
def binaryInt (a b : Int64) : BinaryOp → Option (Except Fault Value)
  | .add => some (checkedInt .addition (a.toInt + b.toInt))
  | .sub => some (checkedInt .subtraction (a.toInt - b.toInt))
  | .mul => some (checkedInt .multiplication (a.toInt * b.toInt))
  | .div => some (divideInt a b)
  | .rem => some (remainderInt a b)
  | .bitAnd => some (.ok (.int (a &&& b)))
  | .bitOr => some (.ok (.int (a ||| b)))
  | .bitXor => some (.ok (.int (a ^^^ b)))
  | .shl => some (shiftInt .leftShift (· <<< ·) a b)
  | .shr => some (shiftInt .rightShift (· >>> ·) a b)
  | .lt => some (.ok (.bool (a < b)))
  | .le => some (.ok (.bool (a ≤ b)))
  | .gt => some (.ok (.bool (b < a)))
  | .ge => some (.ok (.bool (b ≤ a)))
  | _ => none

/-- The remainder of the division of two doubles. -/
def remainderFloat (a b : Float) : Float :=
  Float.ofBits (Decimal.remainder a.toBits b.toBits)

/-- An operator on two doubles; none if it does not apply to them. -/
def binaryFloat (a b : Float) : BinaryOp → Option Value
  | .add => some (.float (a + b))
  | .sub => some (.float (a - b))
  | .mul => some (.float (a * b))
  | .div => some (.float (a / b))
  | .rem => some (.float (remainderFloat a b))
  | .lt => some (.bool (a < b))
  | .le => some (.bool (a ≤ b))
  | .gt => some (.bool (b < a))
  | .ge => some (.bool (b ≤ a))
  | _ => none

/-- An operator on two texts; none if it does not apply to them. -/
def binaryStr (a b : String) : BinaryOp → Option Value
  | .add => some (.str (a ++ b))
  | .lt => some (.bool (a < b))
  | .le => some (.bool (¬ b < a))
  | .gt => some (.bool (b < a))
  | .ge => some (.bool (¬ a < b))
  | _ => none

/-- An operator on two truth values; none if it does not apply to them. -/
def binaryBool (a b : Bool) : BinaryOp → Option Value
  | .and => some (.bool (a && b))
  | .or => some (.bool (a || b))
  | _ => none

/-- An operator chosen by the types of its operands; none if it does not apply to them. -/
def binaryByType (left right : Value) (op : BinaryOp) : Option (Except Fault Value) :=
  match left, right with
  | .int a, .int b => binaryInt a b op
  | .float a, .float b => (binaryFloat a b op).map .ok
  | .int a, .float b => (binaryFloat a.toFloat b op).map .ok
  | .float a, .int b => (binaryFloat a b.toFloat op).map .ok
  | .str a, .str b => (binaryStr a b op).map .ok
  | .bool a, .bool b => (binaryBool a b op).map .ok
  | _, _ => none

/-- What a binary operator makes of two values. Equality applies to all of them. -/
def applyBinary (left right : Value) (op : BinaryOp) : Except Fault Value :=
  match op with
  | .eq => .ok (.bool (left.equals right))
  | .ne => .ok (.bool (!left.equals right))
  | .strictEq => .ok (.bool (left.sameAs right))
  | .strictNe => .ok (.bool (!left.sameAs right))
  | op => (binaryByType left right op).getD (.error (.invalidBinary op left.type right.type))

/-- What a unary operator makes of a value. -/
def applyUnary (op : UnaryOp) (operand : Value) : Except Fault Value :=
  match op, operand with
  | .not, .bool value => .ok (.bool (!value))
  | .neg, .int value => checkedInt .negation (-value.toInt)
  | .neg, .float value => .ok (.float (-value))
  | op, operand => .error (.invalidUnary op operand.type)

end SlotScript
