import SlotScript.Proofs.Tree.Change

/-!
# Trees without positions

Tokens, nodes and errors carry spans of source. `bare` moves all of them to one place and keeps
everything else: it is a change of places only.

**Theorem (`ofTokens_bare`).** The program of the bare tokens is the bare program of the tokens,
and if there is none, the fault is the same.
-/

namespace SlotScript

/-! ## Erasing spans -/

/-- The place that stands for every place. -/
def Span.nowhere : Span := ⟨0, 0⟩

@[simp] theorem Span.nowhere_merge : Span.nowhere.merge .nowhere = .nowhere := rfl

mutual

/-- The node without its spans. -/
def Node.bare : Node → Node
  | .int value _ => .int value .nowhere
  | .float bits _ => .float bits .nowhere
  | .bool value _ => .bool value .nowhere
  | .str text _ => .str text .nowhere
  | .null _ => .null .nowhere
  | .ident name var _ => .ident name var .nowhere
  | .unary op operand _ => .unary op operand.bare .nowhere
  | .binary op left right _ => .binary op left.bare right.bare .nowhere
  | .assign target var decl op value _ => .assign target var decl op value.bare .nowhere
  | .branch cond yes no yesShape noShape _ =>
    .branch cond.bare yes.bare (bareOption no) yesShape noShape .nowhere
  | .whileLoop cond body header bodyShape _ =>
    .whileLoop cond.bare body.bare header bodyShape .nowhere
  | .forLoop init cond step body header bodyShape _ =>
    .forLoop (bareOption init) (bareOption cond) (bareOption step) body.bare header bodyShape
      .nowhere
  | .define name binding params body frame _ =>
    .define name binding (bareParams params) body.bare frame .nowhere
  | .call callee args _ => .call callee.bare (bareNodes args) .nowhere
  | .block body _ => .block (bareNodes body) .nowhere
  | .breakLoop _ => .breakLoop .nowhere
  | .continueLoop _ => .continueLoop .nowhere
  | .ret value _ => .ret (bareOption value) .nowhere

/-- The part without its spans. -/
def bareOption : Option Node → Option Node
  | none => none
  | some node => some node.bare

/-- The nodes without their spans. -/
def bareNodes : List Node → List Node
  | [] => []
  | node :: rest => node.bare :: bareNodes rest

/-- The parameter without its spans. -/
def Param.bare : Param → Param
  | .mk name default _ => .mk name (bareOption default) .nowhere

/-- The parameters without their spans. -/
def bareParams : List Param → List Param
  | [] => []
  | param :: rest => param.bare :: bareParams rest

end

/-- The error without its spans. -/
def BuildError.bare (e : BuildError) : BuildError :=
  { fault := e.fault, span := .nowhere, opened := e.opened.map fun _ => .nowhere }

/-- The token without its span. -/
def Token.bare (token : Token) : Token := ⟨token.kind, .nowhere⟩

/-- The program without its spans. -/
def Program.bare (program : Program) : Program :=
  { program with body := program.body.map Node.bare }

/-- The result of a step without spans: `f` erases those of what the step returns. -/
def bareWith {α : Type} (f : α → α) : Except BuildError α → Except BuildError α
  | .ok a => .ok (f a)
  | .error e => .error e.bare

theorem bareWith_eq_ok {α : Type} {f : α → α} {x : Except BuildError α} {b : α} :
    bareWith f x = .ok b ↔ ∃ a, x = .ok a ∧ f a = b := by
  cases x <;> simp [bareWith]

/-! ## Erasing spans is a change -/

/-- Every place becomes one place, and nothing else changes. -/
def Change.bare : Change where
  span _ := .nowhere
  literal text _ := .str text .nowhere
  name := id
  count := id
  numbering := .counted
  span_merge _ _ := rfl
  span_origin := rfl
  span_literal _ _ := rfl
  name_counted _ := rfl
  count_zero := rfl
  count_succ _ := rfl

mutual

theorem Node.change_bare (node : Node) : node.change .bare = node.bare := by
  cases node with
  | unary op operand span =>
    rw [Node.change, Node.bare, operand.change_bare]
    rfl
  | binary op left right span =>
    rw [Node.change, Node.bare, left.change_bare, right.change_bare]
    rfl
  | assign target var decl op value span =>
    rw [Node.change, Node.bare, value.change_bare]
    rfl
  | branch cond yes no yesShape noShape span =>
    rw [Node.change, Node.bare, cond.change_bare, yes.change_bare, changeOption_bare no]
    rfl
  | whileLoop cond body header bodyShape span =>
    rw [Node.change, Node.bare, cond.change_bare, body.change_bare]
    rfl
  | forLoop init cond step body header bodyShape span =>
    rw [Node.change, Node.bare, changeOption_bare init, changeOption_bare cond,
      changeOption_bare step, body.change_bare]
    rfl
  | define name binding params body frame span =>
    rw [Node.change, Node.bare, changeParams_bare params, body.change_bare]
    exact congrArg (Node.define · binding _ _ frame _) (ite_self name)
  | call callee args span =>
    rw [Node.change, Node.bare, callee.change_bare, changeNodes_bare args]
    rfl
  | block body span =>
    rw [Node.change, Node.bare, changeNodes_bare body]
    rfl
  | ret value span =>
    rw [Node.change, Node.bare, changeOption_bare value]
    rfl
  | _ => rfl

theorem changeOption_bare (part : Option Node) : changeOption .bare part = bareOption part := by
  cases part with
  | none => rfl
  | some node => rw [changeOption, bareOption, node.change_bare]

theorem changeNodes_bare (nodes : List Node) : changeNodes .bare nodes = bareNodes nodes := by
  cases nodes with
  | nil => rfl
  | cons node rest => rw [changeNodes, bareNodes, node.change_bare, changeNodes_bare rest]

theorem Param.change_bare (param : Param) : param.change .bare = param.bare := by
  cases param with
  | mk name default span =>
    rw [Param.change, Param.bare, changeOption_bare default]
    rfl

theorem changeParams_bare (params : List Param) :
    changeParams .bare params = bareParams params := by
  cases params with
  | nil => rfl
  | cons param rest => rw [changeParams, bareParams, param.change_bare, changeParams_bare rest]

end

/-- **Where tokens stand changes only where nodes stand.** -/
theorem Program.ofTokens_bare (tokens : List Token) :
    Program.ofTokens (tokens.map Token.bare) =
      bareWith Program.bare (Program.ofTokens tokens) := by
  have hfollows := Program.ofTokens_change .bare tokens fun token _ text _ place => rfl
  have htokens : tokens.map (Token.change .bare) = tokens.map Token.bare := rfl
  rw [htokens, show Change.bare.numbering = .counted from rfl, Program.ofTokensBy_counted]
    at hfollows
  cases hprogram : Program.ofTokens tokens with
  | ok program =>
    rw [hprogram] at hfollows
    refine hfollows.trans (congrArg Except.ok ?_)
    simp [Program.change, Program.bare, funext Node.change_bare]
  | error e =>
    rw [hprogram] at hfollows
    exact hfollows fun text place => rfl

end SlotScript
