import SlotScript.Tree

/-!
# Changes of trees

A `Recast` changes the names in a tree and what stands in the places of statements, and it leaves alone
all else: spans, places, shapes, and which parts a node has. `Node.recast` carries it through a tree.
-/

namespace SlotScript

/-- A change of names and statements. -/
structure Recast where
  /-- The new name. -/
  name : String → String
  /-- What stands in the place of a statement, which has been changed itself. -/
  spread : Node → List Node

mutual

/-- The node, changed. -/
def Node.recast (c : Recast) : Node → Node
  | .int value span => .int value span
  | .float bits span => .float bits span
  | .bool value span => .bool value span
  | .str text span => .str text span
  | .null span => .null span
  | .ident name var span => .ident (c.name name) var span
  | .unary op operand span => .unary op (operand.recast c) span
  | .binary op left right span => .binary op (left.recast c) (right.recast c) span
  | .assign target var decl op value span => .assign (c.name target) var decl op (value.recast c) span
  | .branch cond yes no yesShape noShape span =>
    .branch (cond.recast c) (yes.recast c) (recastOption c no) yesShape noShape span
  | .whileLoop cond body header bodyShape span =>
    .whileLoop (cond.recast c) (body.recast c) header bodyShape span
  | .forLoop init cond step body header bodyShape span =>
    .forLoop (recastOption c init) (recastOption c cond) (recastOption c step) (body.recast c) header
      bodyShape span
  | .define name binding params body frame span =>
    .define (c.name name) binding (recastParams c params) (body.recast c) frame span
  | .call callee args span => .call (callee.recast c) (recastNodes c args) span
  | .block body span => .block (recastStatements c body) span
  | .breakLoop span => .breakLoop span
  | .continueLoop span => .continueLoop span
  | .ret value span => .ret (recastOption c value) span

/-- A part that may be missing, changed. -/
def recastOption (c : Recast) : Option Node → Option Node
  | none => none
  | some node => some (node.recast c)

/-- Nodes that are no statements, changed. -/
def recastNodes (c : Recast) : List Node → List Node
  | [] => []
  | node :: rest => node.recast c :: recastNodes c rest

/-- The parameters, changed. -/
def recastParams (c : Recast) : List Param → List Param
  | [] => []
  | .mk name default span :: rest => .mk (c.name name) (recastOption c default) span :: recastParams c rest

/-- Statements, changed. -/
def recastStatements (c : Recast) : List Node → List Node
  | [] => []
  | statement :: rest => c.spread (statement.recast c) ++ recastStatements c rest

end

/-- The parameter, changed. -/
def Param.recast (c : Recast) : Param → Param
  | .mk name default span => .mk (c.name name) (recastOption c default) span

section Lists

variable (c : Recast)

@[simp] theorem Node.span_recast (node : Node) : (node.recast c).span = node.span := by
  cases node <;> rfl

theorem recastParams_eq_map (params : List Param) :
    recastParams c params = params.map (Param.recast c) := by
  induction params with
  | nil => rfl
  | cons param rest ih =>
    obtain ⟨name, default, span⟩ := param
    rw [recastParams, ih]
    rfl

end Lists

end SlotScript
