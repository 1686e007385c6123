import Mathlib.Logic.Basic
import SlotScript.Proofs.Scope.Bare
import SlotScript.Proofs.Scope.Lexical

/-!
# Skeletons

The skeleton of a tree is the tree without its spans, places and shapes. The resolver fills in places and
shapes and leaves the skeleton as it is (`Program.skeleton_resolve`).
-/

namespace SlotScript

/-- The node without its spans, places and shapes. -/
def Node.skeleton (node : Node) : Node := node.bare.unmarked

/-- The parameter without its spans, places and shapes. -/
def Param.skeleton (param : Param) : Param := .mk param.name (param.default.map Node.skeleton) .nowhere

/-! ## Skeletons -/

theorem unmarkedOption_bare (part : Option Node) :
    unmarkedOption (bareOption part) = part.map Node.skeleton := by
  cases part <;> rfl

theorem unmarkedNodes_bare (nodes : List Node) : unmarkedNodes (bareNodes nodes) = nodes.map Node.skeleton := by
  induction nodes with
  | nil => rfl
  | cons node more ih =>
    rw [List.map_cons, ← ih]
    rfl

theorem unmarkedParams_bare (params : List Param) :
    unmarkedParams (bareParams params) = params.map Param.skeleton := by
  induction params with
  | nil => rfl
  | cons param more ih =>
    obtain ⟨name, value, span⟩ := param
    rw [List.map_cons, ← ih, bareParams, Param.bare, unmarkedParams, unmarkedOption_bare]
    rfl

namespace Node

variable {span : Span}

theorem skeleton_branch {cond yes : Node} {no : Option Node} {yesShape noShape : Shape} :
    (Node.branch cond yes no yesShape noShape span).skeleton =
      .branch cond.skeleton yes.skeleton (no.map skeleton) .blank .blank .nowhere := by
  rw [← unmarkedOption_bare]
  rfl

theorem skeleton_forLoop {init cond step : Option Node} {body : Node} {header bodyShape : Shape} :
    (Node.forLoop init cond step body header bodyShape span).skeleton =
      .forLoop (init.map skeleton) (cond.map skeleton) (step.map skeleton) body.skeleton .blank .blank
        .nowhere := by
  rw [← unmarkedOption_bare, ← unmarkedOption_bare, ← unmarkedOption_bare]
  rfl

theorem skeleton_define {name : String} {binding : Option VarRef} {params : List Param} {body : Node}
    {frame : Shape} : (Node.define name binding params body frame span).skeleton =
      .define name (binding.map fun _ => .unresolved) (params.map Param.skeleton) body.skeleton .blank
        .nowhere := by
  rw [← unmarkedParams_bare]
  rfl

theorem skeleton_call {callee : Node} {args : List Node} :
    (Node.call callee args span).skeleton = .call callee.skeleton (args.map skeleton) .nowhere := by
  rw [← unmarkedNodes_bare]
  rfl

theorem skeleton_block {body : List Node} :
    (Node.block body span).skeleton = .block (body.map skeleton) .nowhere := by
  rw [← unmarkedNodes_bare]
  rfl

end Node

mutual

/-- Spans can be erased before places and shapes or after them. -/
theorem Node.unmarked_bare : ∀ node : Node, node.bare.unmarked = node.unmarked.bare
  | .int .. | .float .. | .bool .. | .str .. | .null _ | .ident .. | .breakLoop _ | .continueLoop _ => rfl
  | .unary op operand _ => congrArg (Node.unary op · .nowhere) operand.unmarked_bare
  | .binary op left right _ =>
    congrArg₂ (Node.binary op · · .nowhere) left.unmarked_bare right.unmarked_bare
  | .assign target _ decl op value _ =>
    congrArg (Node.assign target .unresolved decl op · .nowhere) value.unmarked_bare
  | .branch cond yes no _ _ _ => by
    simp only [Node.bare, Node.unmarked, cond.unmarked_bare, yes.unmarked_bare, unmarkedOption_comm no]
  | .whileLoop cond body _ _ _ =>
    congrArg₂ (Node.whileLoop · · .blank .blank .nowhere) cond.unmarked_bare body.unmarked_bare
  | .forLoop init cond step body _ _ _ => by
    simp only [Node.bare, Node.unmarked, unmarkedOption_comm init, unmarkedOption_comm cond,
      unmarkedOption_comm step, body.unmarked_bare]
  | .define name binding params body _ _ => by
    simp only [Node.bare, Node.unmarked, unmarkedParams_comm params, body.unmarked_bare]
  | .call callee args _ => congrArg₂ (Node.call · · .nowhere) callee.unmarked_bare (unmarkedNodes_comm args)
  | .block body _ => congrArg (Node.block · .nowhere) (unmarkedNodes_comm body)
  | .ret value _ => congrArg (Node.ret · .nowhere) (unmarkedOption_comm value)

theorem unmarkedOption_comm : ∀ part : Option Node,
    unmarkedOption (bareOption part) = bareOption (unmarkedOption part)
  | none => rfl
  | some node => congrArg some node.unmarked_bare

theorem unmarkedNodes_comm : ∀ nodes : List Node,
    unmarkedNodes (bareNodes nodes) = bareNodes (unmarkedNodes nodes)
  | [] => rfl
  | node :: more => congrArg₂ List.cons node.unmarked_bare (unmarkedNodes_comm more)

theorem unmarkedParams_comm : ∀ params : List Param,
    unmarkedParams (bareParams params) = bareParams (unmarkedParams params)
  | [] => rfl
  | .mk name value _ :: more =>
    congrArg₂ (fun value more => Param.mk name value .nowhere :: more) (unmarkedOption_comm value)
      (unmarkedParams_comm more)

end

/-- The resolver leaves the skeleton as it is. -/
theorem Program.skeleton_resolve {raw program : Program} (h : raw.resolve = .ok program) :
    program.skeleton = raw.skeleton := by
  have hcomm : ∀ program : Program, program.skeleton = program.unmarked.bare := by
    intro program
    rw [skeleton, unmarked, unmarked, bare, bare, ← bareNodes_eq_map, unmarkedNodes_comm, bareNodes_eq_map]
  have hwalks := raw.resolve_walks
  rw [h] at hwalks
  obtain ⟨-, -, -, -, hunmarked⟩ := hwalks
  rw [hcomm, hcomm, hunmarked]

end SlotScript
