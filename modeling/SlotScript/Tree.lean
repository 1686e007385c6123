import SlotScript.Span
import SlotScript.Operator
import SlotScript.Scope

/-!
# Programs as trees

Statements are expressions: every node has a value. Names carry an occurrence that says where
the variable is found, and the nodes that open scopes carry the shapes of these; both are blank
in a freshly built tree and are filled in when names are resolved. Every node knows the span of
source that it was built from.
-/

namespace SlotScript

mutual

/-- A node of the tree. -/
inductive Node where
  /-- A whole number. -/
  | int (value : Int64) (span : Span)
  /-- A double, by its bits. -/
  | float (bits : UInt64) (span : Span)
  /-- A truth value. -/
  | bool (value : Bool) (span : Span)
  /-- A text. -/
  | str (text : String) (span : Span)
  /-- The value that stands for nothing. -/
  | null (span : Span)
  /-- The value of a variable. -/
  | ident (name : String) (var : VarRef) (span : Span)
  /-- An operator in front of its operand. -/
  | unary (op : UnaryOp) (operand : Node) (span : Span)
  /-- An operator between its operands. -/
  | binary (op : BinaryOp) (left right : Node) (span : Span)
  /-- An assignment; with an operator, of what the operator makes of the old value. -/
  | assign (target : String) (var : VarRef) (decl : DeclKind) (op : Option BinaryOp)
      (value : Node) (span : Span)
  /-- A choice between two branches. -/
  | branch (cond yes : Node) (no : Option Node) (yesShape noShape : Shape) (span : Span)
  /-- A loop with a condition. -/
  | whileLoop (cond body : Node) (header bodyShape : Shape) (span : Span)
  /-- A loop with a start, a condition and a step, each of which may be missing. -/
  | forLoop (init cond step : Option Node) (body : Node) (header bodyShape : Shape)
      (span : Span)
  /-- A function. A function without a name of its own has no occurrence. -/
  | define (name : String) (binding : Option VarRef) (params : List Param) (body : Node)
      (frame : Shape) (span : Span)
  /-- A call. -/
  | call (callee : Node) (args : List Node) (span : Span)
  /-- Statements in braces. -/
  | block (body : List Node) (span : Span)
  /-- Leaves the loop. -/
  | breakLoop (span : Span)
  /-- Goes on with the next round of the loop. -/
  | continueLoop (span : Span)
  /-- Leaves the function. -/
  | ret (value : Option Node) (span : Span)

/-- A parameter of a function. -/
inductive Param where
  /-- A name, and the default for a missing argument. -/
  | mk (name : String) (default : Option Node) (span : Span)

end

instance : Inhabited Node := ⟨.null default⟩

/-- The span of source that the node was built from. -/
def Node.span : Node → Span
  | .int _ s | .float _ s | .bool _ s | .str _ s | .null s | .ident _ _ s | .unary _ _ s
  | .binary _ _ _ s | .assign _ _ _ _ _ s | .branch _ _ _ _ _ s | .whileLoop _ _ _ _ s
  | .forLoop _ _ _ _ _ _ s | .define _ _ _ _ _ s | .call _ _ s | .block _ s | .breakLoop s
  | .continueLoop s | .ret _ s => s

namespace Param

/-- The parameter's name. -/
def name : Param → String
  | .mk name _ _ => name

/-- The expression that gives the value of a missing argument. -/
def default : Param → Option Node
  | .mk _ default _ => default

/-- The span of source that the parameter was built from. -/
def span : Param → Span
  | .mk _ _ span => span

end Param

/-- A program: its statements and the shape of its own scope. -/
structure Program where
  /-- The statements in order. -/
  body : List Node
  /-- The shape of the scope they run in. -/
  shape : Shape := Shape.blank

end SlotScript
