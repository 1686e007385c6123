import SlotScript.Machine.Operation

/-!
# Operators on values: what can come out

An operator makes a plain value, never a function, and its faults are about its operands: it
never reports a state that a program cannot reach.
-/

namespace SlotScript

/-- Whether a value means the same in every run. Functions do not. -/
def Value.isPlain : Value → Bool
  | .function _ => false
  | _ => true

/-- Whether a fault is about the operands of an operator. -/
def Fault.isArithmetic : Fault → Bool
  | .invalidBinary .. | .invalidUnary .. | .divisionByZero | .moduloByZero | .overflow _ => true
  | _ => false

/-- A plain value, or a fault about the operands. -/
def Computed : Except Fault Value → Prop
  | .ok value => value.isPlain
  | .error fault => fault.isArithmetic

/-- A plain value, or a fault that a program can run into. -/
def Plain : Except Fault Value → Prop
  | .ok value => value.isPlain
  | .error fault => ∀ state, fault ≠ .impossible state

theorem Computed.plain {result : Except Fault Value} (h : Computed result) : Plain result := by
  cases result with
  | ok value => exact h
  | error fault =>
    rintro state rfl
    cases h

theorem computed_checkedInt (operation : CheckedOp) (n : Int) : Computed (checkedInt operation n) := by
  unfold checkedInt
  split
  · rfl
  · rfl

theorem computed_divideInt (a b : Int64) : Computed (divideInt a b) := by
  unfold divideInt
  split
  · rfl
  · exact computed_checkedInt _ _

theorem computed_remainderInt (a b : Int64) : Computed (remainderInt a b) := by
  unfold remainderInt
  split
  · rfl
  · split
    · rfl
    · rfl

theorem computed_shiftInt (operation : CheckedOp) (shift : Int64 → Int64 → Int64) (a b : Int64) :
    Computed (shiftInt operation shift a b) := by
  unfold shiftInt
  split
  · rfl
  · rfl

theorem computed_binaryInt (a b : Int64) (op : BinaryOp) : ∀ r ∈ binaryInt a b op, Computed r := by
  intro r hr
  cases op with
  | add | sub | mul => cases hr; exact computed_checkedInt _ _
  | div => cases hr; exact computed_divideInt a b
  | rem => cases hr; exact computed_remainderInt a b
  | shl | shr => cases hr; exact computed_shiftInt _ _ a b
  | bitAnd | bitOr | bitXor | lt | le | gt | ge => cases hr; rfl
  | eq | ne | strictEq | strictNe | and | or => cases hr

theorem isPlain_binaryFloat (a b : Float) (op : BinaryOp) : ∀ v ∈ binaryFloat a b op, v.isPlain := by
  intro v hv
  cases op with
  | add | sub | mul | div | rem | lt | le | gt | ge => cases hv; rfl
  | _ => cases hv

theorem isPlain_binaryStr (a b : String) (op : BinaryOp) : ∀ v ∈ binaryStr a b op, v.isPlain := by
  intro v hv
  cases op with
  | add | lt | le | gt | ge => cases hv; rfl
  | _ => cases hv

theorem isPlain_binaryBool (a b : Bool) (op : BinaryOp) : ∀ v ∈ binaryBool a b op, v.isPlain := by
  intro v hv
  cases op with
  | and | or => cases hv; rfl
  | _ => cases hv

theorem computed_map_ok {found : Option Value} (h : ∀ v ∈ found, v.isPlain) :
    ∀ r ∈ found.map Except.ok, Computed r := by
  intro r hr
  obtain ⟨v, hv, rfl⟩ := Option.map_eq_some_iff.1 hr
  exact h v hv

theorem computed_binaryByType (left right : Value) (op : BinaryOp) :
    ∀ r ∈ binaryByType left right op, Computed r := by
  unfold binaryByType
  split
  · exact computed_binaryInt _ _ op
  · exact computed_map_ok (isPlain_binaryFloat _ _ op)
  · exact computed_map_ok (isPlain_binaryFloat _ _ op)
  · exact computed_map_ok (isPlain_binaryFloat _ _ op)
  · exact computed_map_ok (isPlain_binaryStr _ _ op)
  · exact computed_map_ok (isPlain_binaryBool _ _ op)
  · intro r hr
    cases hr

theorem computed_applyBinary (left right : Value) (op : BinaryOp) :
    Computed (applyBinary left right op) := by
  unfold applyBinary
  split
  · rfl
  · rfl
  · rfl
  · rfl
  · cases hb : binaryByType left right op with
    | none => rfl
    | some r => exact computed_binaryByType left right op r hb

theorem computed_applyUnary (op : UnaryOp) (operand : Value) : Computed (applyUnary op operand) := by
  unfold applyUnary
  split
  · rfl
  · exact computed_checkedInt _ _
  · rfl
  · rfl

theorem plain_applyBinary (left right : Value) (op : BinaryOp) :
    Plain (applyBinary left right op) :=
  (computed_applyBinary left right op).plain

theorem plain_applyUnary (op : UnaryOp) (operand : Value) : Plain (applyUnary op operand) :=
  (computed_applyUnary op operand).plain

end SlotScript
