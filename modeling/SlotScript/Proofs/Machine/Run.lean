import SlotScript.Proofs.Machine.Stack

/-!
# Runs as chains of steps

`Step.Leads` says that the machine comes from one step to another. How many steps that takes is left
open: a bounded run that ends is a chain to its end (`leads_of_runAfter`), and a chain to an end is the
run under every bound that is large enough (`Leads.runAfter`). `Step.LeadsThrough` also says something
about every machine on the way.

A machine whose stack is put on top of more goes through the same steps; where it would stop, it hands
its flow to what lies below (`LeadsThrough.onto`). So the evaluation of a node inside of another one is
the evaluation of the node by itself.
-/

namespace SlotScript

open Relation (ReflTransGen)

/-- The machine comes from one step to the other, and all that it is on the way has the property. -/
def Step.LeadsThrough (P : Machine → Prop) : Step → Step → Prop :=
  ReflTransGen fun s t => ∃ m, s = .next m ∧ P m ∧ m.step = t

/-- The machine comes from one step to the other. -/
abbrev Step.Leads : Step → Step → Prop := LeadsThrough fun _ => True

/-! ## Only a flow that nothing waits for ends a run -/

/-- Nothing waits any more. -/
def Step.isDone : Step → Bool
  | .done _ _ => true
  | _ => false

namespace Machine

variable {store : Store} {stack : List Waiting}

theorem isDone_result {result : Except Fault Value} {span : Span} :
    (Step.result result span stack store).isDone = false := by
  cases result <;> rfl

theorem isDone_bindParams {closure : Closure} {frame : ScopeId} {site : Option Span} {slot : Nat}
    {params : List Param} {args : List Value} :
    (bindParams closure frame site stack slot params args store).isDone = false := by
  induction params generalizing slot args store with
  | nil => rfl
  | cons param rest ih =>
    cases args with
    | nil =>
      rw [bindParams]
      cases param.default <;> rfl
    | cons arg args =>
      rw [bindParams]
      split
      · rfl
      · exact ih

theorem isDone_callArgs {closure : Closure} {done : List Value} {args : List Node} {scope : ScopeId}
    {span : Span} : (callArgs closure done args scope span stack store).isDone = false := by
  cases args with
  | nil =>
    rw [callArgs, call]
    split
    · rfl
    · exact isDone_bindParams
  | cons arg rest => rfl

theorem isDone_define {name : String} {binding : Option VarRef} {params : List Param} {body : Node}
    {frame : Shape} {scope : ScopeId} {span : Span} :
    (define name binding params body frame scope span stack store).isDone = false := by
  cases binding with
  | none => rfl
  | some var =>
    simp only [define]
    split
    · rfl
    · split <;> rfl

theorem isDone_loopRound {loop : Loop} {last : Value} :
    (loopRound loop last stack store).isDone = false := by
  rw [loopRound]
  cases loop.cond <;> rfl

theorem isDone_loopNext {loop : Loop} {last : Value} :
    (loopNext loop last stack store).isDone = false := by
  rw [loopNext]
  cases loop.step with
  | some step => rfl
  | none => exact isDone_loopRound

theorem isDone_takeBranch {test : Bool} {yes : Node} {no : Option Node} {yesShape noShape : Shape}
    {scope : ScopeId} : (takeBranch test yes no yesShape noShape scope stack store).isDone = false := by
  cases test with
  | true => rfl
  | false => cases no <;> rfl

theorem isDone_writeVar {name : String} {place : Place} {value : Value} {scope : ScopeId} {span : Span} :
    (writeVar name place value scope span stack store).isDone = false := by
  rw [writeVar]
  cases store.cell? scope place name <;> rfl

theorem isDone_updateVar {name : String} {place : Place} {op : BinaryOp} {value : Value}
    {scope : ScopeId} {span : Span} :
    (updateVar name place op value scope span stack store).isDone = false := by
  rw [updateVar]
  cases store.lookup scope place name with
  | error e => rfl
  | ok current =>
    simp only
    cases applyBinary current value op with
    | error fault => rfl
    | ok result => exact isDone_writeVar

theorem isDone_start {node : Node} {scope : ScopeId} : (start node scope stack store).isDone = false := by
  cases node with
  | ident name var span =>
    rw [start, readVar]
    cases store.lookup scope var.place name <;> rfl
  | binary op left right span =>
    rw [start]
    split <;> rfl
  | whileLoop cond body header bodyShape span => rfl
  | forLoop init cond step body header bodyShape span =>
    cases init with
    | some init => rfl
    | none => exact isDone_loopRound
  | define name binding params body frame span => exact isDone_define
  | block body span => cases body <;> rfl
  | ret value span => cases value <;> rfl
  | _ => rfl

theorem isDone_resume {waiting : Waiting} {value : Value} :
    (resume waiting value stack store).isDone = false := by
  cases waiting with
  | unary op span => exact isDone_result
  | right op left span => exact isDone_result
  | logicalLeft op leftSpan right scope =>
    cases value with
    | bool test =>
      simp only [resume, withTruth]
      split <;> rfl
    | _ => rfl
  | logicalRight rightSpan => cases value <;> rfl
  | assign target place op scope span =>
    cases op with
    | none => exact isDone_writeVar
    | some op => exact isDone_updateVar
  | branch condSpan yes no yesShape noShape scope =>
    cases value with
    | bool test => exact isDone_takeBranch
    | _ => rfl
  | loopInit loop => exact isDone_loopRound
  | loopCond loop last condSpan =>
    cases value with
    | bool test => cases test <;> rfl
    | _ => rfl
  | loopBody loop last => exact isDone_loopNext
  | loopStep loop last => exact isDone_loopRound
  | callee calleeSpan args scope span =>
    cases value with
    | function closure => exact isDone_callArgs
    | _ => rfl
  | argument closure done rest scope span => exact isDone_callArgs
  | default closure frame slot name rest site =>
    simp only [resume]
    split
    · rfl
    · exact isDone_bindParams
  | block rest scope => cases rest <;> rfl
  | left | body | ret => rfl

theorem isDone_unwind {waiting : Waiting} {flow : Flow} :
    (unwind waiting flow stack store).isDone = false := by
  cases waiting with
  | loopBody loop last =>
    cases flow with
    | continueLoop => exact isDone_loopNext
    | _ => rfl
  | default closure frame slot name rest site =>
    cases flow with
    | ret value =>
      rw [unwind]
      exact isDone_resume
    | _ => rfl
  | body site => cases flow <;> rfl
  | _ => rfl

theorem looks_or (m : Machine) : m.Looks ∨ ∃ flow store, m = ⟨.deliver flow, [], store⟩ := by
  obtain ⟨control, stack, store⟩ := m
  cases control with
  | eval node scope => exact .inl (by simp [Looks])
  | deliver flow =>
    cases stack with
    | nil => exact .inr ⟨flow, store, rfl⟩
    | cons top stack => exact .inl (by simp [Looks])

/-- A machine that looks at something goes on or fails. -/
theorem Looks.isDone_step {m : Machine} (h : m.Looks) : m.step.isDone = false := by
  obtain ⟨control, stack, store⟩ := m
  cases control with
  | eval node scope => exact isDone_start
  | deliver flow =>
    cases stack with
    | nil => exact absurd rfl (h flow rfl)
    | cons waiting stack =>
      cases flow with
      | normal value => exact isDone_resume
      | _ => exact isDone_unwind

end Machine

/-! ## Chains and bounded runs -/

namespace Step

variable {s t : Step} {P Q : Machine → Prop}

theorem LeadsThrough.step {m : Machine} (hm : P m) (h : m.step = t) : (Step.next m).LeadsThrough P t :=
  .single ⟨m, rfl, hm, h⟩

theorem LeadsThrough.trans {u : Step} (h : s.LeadsThrough P t) (h' : t.LeadsThrough P u) :
    s.LeadsThrough P u :=
  ReflTransGen.trans h h'

theorem Leads.step {m : Machine} (h : m.step = t) : (Step.next m).Leads t := LeadsThrough.step trivial h

/-- What every step of the machine keeps holds all along a chain. -/
theorem Leads.through (inv : Step → Prop) (h : s.Leads t) (hs : inv s)
    (hstep : ∀ m, inv (.next m) → inv m.step) : s.LeadsThrough (fun m => inv (.next m)) t ∧ inv t := by
  induction h with
  | refl => exact ⟨.refl, hs⟩
  | tail _ hlast ih =>
    obtain ⟨m, rfl, -, rfl⟩ := hlast
    exact ⟨ih.1.trans (.step ih.2 rfl), hstep m ih.2⟩

/-- A bounded run that ends is a chain. -/
theorem leads_of_runAfter {limit : Nat} (h : (Machine.runAfter limit s).step? = some t) : s.Leads t := by
  induction limit generalizing s with
  | zero =>
    cases s with
    | next m => cases h
    | done flow store =>
      cases h
      exact .refl
    | failed error store =>
      cases h
      exact .refl
  | succ limit ih =>
    cases s with
    | next m => exact .head ⟨m, rfl, trivial, rfl⟩ (ih h)
    | done flow store =>
      cases h
      exact .refl
    | failed error store =>
      cases h
      exact .refl

/-- After the steps of a chain, a bounded run is one from where the chain leads. -/
theorem Leads.runAfter (h : s.Leads t) :
    ∃ n, ∀ limit, Machine.runAfter (limit + n) s = Machine.runAfter limit t := by
  induction h using ReflTransGen.head_induction_on with
  | refl => exact ⟨0, fun limit => rfl⟩
  | head hstep _ ih =>
    obtain ⟨m, rfl, -, rfl⟩ := hstep
    obtain ⟨n, hn⟩ := ih
    exact ⟨n + 1, fun limit => hn limit⟩

theorem Leads.runAfter_of_le (h : s.Leads t) :
    ∃ n, ∀ limit, n ≤ limit → Machine.runAfter limit s = Machine.runAfter (limit - n) t := by
  obtain ⟨n, hn⟩ := h.runAfter
  refine ⟨n, fun limit hlimit => ?_⟩
  rw [← hn, Nat.sub_add_cancel hlimit]

/-! ## Chains on top of a stack -/

/-- The step with more below it on the stack, which is handed the flow where the machine would stop. -/
def onto (below : List Waiting) : Step → Step
  | .next m => .next { m with stack := m.stack ++ below }
  | .done flow store => .next ⟨.deliver flow, below, store⟩
  | .failed error store => .failed error store

theorem under_eq_onto {below : List Waiting} (h : s.isDone = false) : s.under below = s.onto below := by
  cases s with
  | next m | failed error store => rfl
  | done flow store => cases h

/-- A machine that looks at something takes its step on top of more. -/
theorem step_onto (below : List Waiting) {m : Machine} (h : m.Looks) :
    Machine.step { m with stack := m.stack ++ below } = m.step.onto below := by
  rw [Machine.step_under below h]
  exact under_eq_onto h.isDone_step

/-- **What lies below makes no difference to a chain.** -/
theorem LeadsThrough.onto (below : List Waiting) (h : s.LeadsThrough P t)
    (hbelow : ∀ m, P m → Q { m with stack := m.stack ++ below }) :
    (s.onto below).LeadsThrough Q (t.onto below) := by
  induction h with
  | refl => exact .refl
  | tail _ hstep ih =>
    obtain ⟨m, rfl, hm, rfl⟩ := hstep
    rcases m.looks_or with hlooks | ⟨flow, store, rfl⟩
    · exact ih.trans (.step (hbelow m hm) (step_onto below hlooks))
    · -- the machine stops where the larger one has its flow for what lies below
      cases flow <;> exact ih

/-- The evaluation of a node that ends is a chain, from an empty stack to an empty stack. -/
theorem leads_of_evaluate {limit : Nat} {node : Node} {scope : ScopeId} {store after : Store} {flow : Flow}
    (h : Machine.evaluate limit node scope store = .finished flow after) :
    (Step.eval node scope [] store).Leads (.done flow after) := by
  have hrun : Machine.runAfter limit (.eval node scope [] store) = .finished flow after := h
  exact leads_of_runAfter (by rw [hrun]; rfl)

theorem Leads.onto (below : List Waiting) (h : s.Leads t) : (s.onto below).Leads (t.onto below) :=
  LeadsThrough.onto below h fun _ _ => trivial

end Step

end SlotScript
