import SlotScript.Tree
import SlotScript.Text.Quoted
import SlotScript.Decimal.Written

/-!
# Trees in one line

A compact text for a tree: every construct is a list in parentheses that starts with its
keyword or operator, a block is a list in braces, and a name whose place is known carries it
after an `@`.
-/

namespace SlotScript

/-- A name, with its place if that is known. -/
def outlineName (name : String) : Place → String
  | .unresolved => name
  | place => name ++ "@" ++ place.text

/-- The word that starts an assignment. -/
def outlineAssign : Option BinaryOp → DeclKind → String
  | some op, _ => op.compoundSymbol
  | none, .plain => "="
  | none, .var => "var"
  | none, .const => "const"

/-- The place of a function's own name. -/
def bindingPlace (binding : Option VarRef) : Place :=
  (binding.map (·.place)).getD .unresolved

mutual

/-- A tree in one line. -/
def Node.outline : Node → String
  | .int value _ => toString value.toInt
  | .float bits _ => Decimal.exact bits
  | .bool value _ => if value then "true" else "false"
  | .str text _ => Text.quote text
  | .null _ => "null"
  | .ident name var _ => outlineName name var.place
  | .unary op operand _ => "(" ++ op.symbol ++ " " ++ operand.outline ++ ")"
  | .binary op left right _ =>
    "(" ++ op.symbol ++ " " ++ left.outline ++ " " ++ right.outline ++ ")"
  | .assign target var decl op value _ =>
    "(" ++ outlineAssign op decl ++ " " ++ outlineName target var.place ++ " " ++
      value.outline ++ ")"
  | .branch cond yes no _ _ _ =>
    "(if " ++ cond.outline ++ " " ++ yes.outline ++ outlineElse no ++ ")"
  | .whileLoop cond body _ _ _ => "(while " ++ cond.outline ++ " " ++ body.outline ++ ")"
  | .forLoop init cond step body _ _ _ =>
    "(for " ++ outlineOption init ++ " " ++ outlineOption cond ++ " " ++ outlineOption step ++
      " " ++ body.outline ++ ")"
  | .define name binding params body _ _ =>
    "(def " ++ outlineName name (bindingPlace binding) ++ " (" ++ outlineParams params ++ ") " ++
      body.outline ++ ")"
  | .call callee args _ => "(call " ++ callee.outline ++ outlineArgs args ++ ")"
  | .block body _ => "\x7b" ++ outlineLines body ++ "\x7d"
  | .breakLoop _ => "break"
  | .continueLoop _ => "continue"
  | .ret none _ => "return"
  | .ret (some value) _ => "(return " ++ value.outline ++ ")"

/-- A part that may be missing. -/
def outlineOption : Option Node → String
  | none => "_"
  | some node => node.outline

/-- An `else` branch, with the blank before it. -/
def outlineElse : Option Node → String
  | none => ""
  | some node => " " ++ node.outline

/-- Arguments, each with the blank before it. -/
def outlineArgs : List Node → String
  | [] => ""
  | node :: rest => " " ++ node.outline ++ outlineArgs rest

/-- Statements with separators between them. -/
def outlineLines : List Node → String
  | [] => ""
  | [node] => node.outline
  | node :: rest => node.outline ++ "; " ++ outlineLines rest

/-- A parameter with its default. -/
def Param.outline : Param → String
  | .mk name none _ => name
  | .mk name (some value) _ => name ++ "=" ++ value.outline

/-- Parameters with blanks between them. -/
def outlineParams : List Param → String
  | [] => ""
  | [param] => param.outline
  | param :: rest => param.outline ++ " " ++ outlineParams rest

end

/-- The statements of a program in one line. -/
def Program.outline (program : Program) : String := outlineLines program.body

end SlotScript
