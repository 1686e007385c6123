import SlotScript.Proofs.Scope.Lexical

/-!
# Resolving a tree that carries places and shapes

The resolver does not look at the places and shapes that a tree has. A tree and the tree without them
are resolved alike (`Node.resolve_unmarked`), so trees that differ in nothing else are, and since a
resolved tree only differs from the one it was made of in its places and shapes, to resolve it once
more makes no difference (`Program.resolve_resolved`).
-/

namespace SlotScript

mutual

theorem Node.resolve_unmarked (node : Node) (inLoop : Bool) (outer : List Context) (here : Context) :
    node.unmarked.resolve inLoop outer here = node.resolve inLoop outer here := by
  cases node with
  | unary op operand span =>
    simp only [Node.unmarked, Node.resolve, operand.resolve_unmarked]
  | binary op left right span =>
    simp only [Node.unmarked, Node.resolve, left.resolve_unmarked, right.resolve_unmarked]
  | assign target var decl op value span =>
    cases decl <;> simp only [Node.unmarked, Node.resolve, value.resolve_unmarked]
  | branch cond yes no yesShape noShape span =>
    simp only [Node.unmarked, Node.resolve, cond.resolve_unmarked, yes.resolve_unmarked,
      resolveOption_unmarked no]
  | whileLoop cond body header bodyShape span =>
    simp only [Node.unmarked, Node.resolve, cond.resolve_unmarked, body.resolve_unmarked]
  | forLoop init cond step body header bodyShape span =>
    simp only [Node.unmarked, Node.resolve, resolveOption_unmarked init, resolveOption_unmarked cond,
      resolveOption_unmarked step, body.resolve_unmarked]
  | define name binding params body frame span =>
    cases binding <;>
      simp only [Node.unmarked, Option.map_none, Option.map_some, Node.resolve,
        resolveParams_unmarked params, body.resolve_unmarked]
  | call callee args span =>
    simp only [Node.unmarked, Node.resolve, callee.resolve_unmarked, resolveAll_unmarked args]
  | block body span => simp only [Node.unmarked, Node.resolve, resolveAll_unmarked body]
  | ret value span => simp only [Node.unmarked, Node.resolve, resolveOption_unmarked value]
  | int | float | bool | str | null | ident | breakLoop | continueLoop => rfl
termination_by structural node

theorem resolveOption_unmarked (part : Option Node) (inLoop : Bool) (outer : List Context)
    (here : Context) : resolveOption inLoop outer here (unmarkedOption part) =
      resolveOption inLoop outer here part := by
  cases part with
  | none => rfl
  | some node => simp only [unmarkedOption, resolveOption, node.resolve_unmarked]
termination_by structural part

theorem resolveAll_unmarked (nodes : List Node) (inLoop : Bool) (outer : List Context)
    (here : Context) : resolveAll inLoop outer here (unmarkedNodes nodes) =
      resolveAll inLoop outer here nodes := by
  cases nodes with
  | nil => rfl
  | cons node rest =>
    simp only [unmarkedNodes, resolveAll, node.resolve_unmarked, resolveAll_unmarked rest]
termination_by structural nodes

theorem resolveParams_unmarked (params : List Param) (inLoop : Bool) (outer : List Context)
    (here : Context) : resolveParams inLoop outer here (unmarkedParams params) =
      resolveParams inLoop outer here params := by
  cases params with
  | nil => rfl
  | cons param rest =>
    obtain ⟨name, default, span⟩ := param
    simp only [unmarkedParams, resolveParams, resolveOption_unmarked default,
      resolveParams_unmarked rest]
termination_by structural params

end

namespace Program

variable {raw other resolved : Program}

theorem resolve_unmarked (program : Program) : program.unmarked.resolve = program.resolve := by
  simp only [Program.resolve, Program.unmarked, resolveAll_unmarked]

/-- Programs that only differ in places and shapes are resolved alike. -/
theorem resolve_congr (h : other.unmarked = raw.unmarked) : other.resolve = raw.resolve := by
  rw [← other.resolve_unmarked, h, raw.resolve_unmarked]

theorem unmarked_resolve (h : raw.resolve = .ok resolved) : resolved.unmarked = raw.unmarked := by
  have hwalks := raw.resolve_walks
  rw [h] at hwalks
  obtain ⟨-, -, -, -, hunmarked⟩ := hwalks
  exact hunmarked

/-- To resolve a resolved program once more makes no difference. -/
theorem resolve_resolved (h : raw.resolve = .ok resolved) : resolved.resolve = .ok resolved := by
  rw [resolve_congr (unmarked_resolve h), h]

end Program

end SlotScript
