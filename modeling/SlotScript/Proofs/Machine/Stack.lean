import SlotScript.Proofs.Machine.Session

/-!
# What a step does to the stack

A step looks at the control and at what is on top of the stack, and nothing else. So it makes no
difference what lies below (`Machine.step_under`): a part of a run in which the stack never falls below
some height is a run of its own.

What a step puts on the stack tells what it did. Most of what waits may come from many steps. But an
assignment waits because a step has started it (`Machine.assign_of_mem_step`), and a body or a default
waits because a step goes on with a call (`Machine.calling_of_mem_deliver`).
-/

namespace SlotScript

/-- What waits after a step. -/
def Step.stack : Step → List Waiting
  | .next m => m.stack
  | .done _ _ | .failed _ _ => []

/-! ## What lies below -/

/-- The step with more below it on the stack. -/
def Step.under (below : List Waiting) : Step → Step
  | .next m => .next { m with stack := m.stack ++ below }
  | step => step

namespace Machine

variable {store : Store} {stack : List Waiting} (below : List Waiting)

theorem result_under {result : Except Fault Value} {span : Span} :
    Step.result result span (stack ++ below) store =
      (Step.result result span stack store).under below := by
  cases result <;> rfl

theorem bindParams_under {closure : Closure} {frame : ScopeId} {site : Option Span} {slot : Nat}
    {params : List Param} {args : List Value} :
    bindParams closure frame site (stack ++ below) slot params args store =
      (bindParams closure frame site stack slot params args store).under below := by
  induction params generalizing slot args store with
  | nil => rfl
  | cons param rest ih =>
    cases args with
    | nil =>
      rw [bindParams, bindParams]
      cases param.default <;> rfl
    | cons arg args =>
      rw [bindParams, bindParams]
      split
      · rfl
      · exact ih

theorem call_under {closure : Closure} {args : List Value} {site : Option Span} :
    call closure args site (stack ++ below) store =
      (call closure args site stack store).under below := by
  rw [call, call]
  split
  · rfl
  · exact bindParams_under below

theorem callArgs_under {closure : Closure} {done : List Value} {args : List Node} {scope : ScopeId}
    {span : Span} : callArgs closure done args scope span (stack ++ below) store =
      (callArgs closure done args scope span stack store).under below := by
  cases args with
  | nil => exact call_under below
  | cons arg rest => rfl

theorem define_under {name : String} {binding : Option VarRef} {params : List Param} {body : Node}
    {frame : Shape} {scope : ScopeId} {span : Span} :
    define name binding params body frame scope span (stack ++ below) store =
      (define name binding params body frame scope span stack store).under below := by
  cases binding with
  | none => rfl
  | some var =>
    simp only [define]
    split
    · rfl
    · split
      · rfl
      · rfl

theorem loopRound_under {loop : Loop} {last : Value} :
    loopRound loop last (stack ++ below) store = (loopRound loop last stack store).under below := by
  rw [loopRound, loopRound]
  cases loop.cond <;> rfl

theorem loopNext_under {loop : Loop} {last : Value} :
    loopNext loop last (stack ++ below) store = (loopNext loop last stack store).under below := by
  rw [loopNext, loopNext]
  cases loop.step with
  | some step => rfl
  | none => exact loopRound_under below

theorem takeBranch_under {test : Bool} {yes : Node} {no : Option Node} {yesShape noShape : Shape}
    {scope : ScopeId} : takeBranch test yes no yesShape noShape scope (stack ++ below) store =
      (takeBranch test yes no yesShape noShape scope stack store).under below := by
  cases test with
  | true => rfl
  | false => cases no <;> rfl

theorem writeVar_under {name : String} {place : Place} {value : Value} {scope : ScopeId} {span : Span} :
    writeVar name place value scope span (stack ++ below) store =
      (writeVar name place value scope span stack store).under below := by
  rw [writeVar, writeVar]
  cases store.cell? scope place name <;> rfl

theorem updateVar_under {name : String} {place : Place} {op : BinaryOp} {value : Value}
    {scope : ScopeId} {span : Span} :
    updateVar name place op value scope span (stack ++ below) store =
      (updateVar name place op value scope span stack store).under below := by
  rw [updateVar, updateVar]
  cases store.lookup scope place name with
  | error e => rfl
  | ok current =>
    simp only
    cases applyBinary current value op with
    | error fault => rfl
    | ok result => exact writeVar_under below

theorem start_under {node : Node} {scope : ScopeId} :
    start node scope (stack ++ below) store = (start node scope stack store).under below := by
  cases node with
  | ident name var span =>
    rw [start, start, readVar, readVar]
    cases store.lookup scope var.place name <;> rfl
  | binary op left right span =>
    rw [start, start]
    split <;> rfl
  | whileLoop cond body header bodyShape span =>
    rw [start, start]
    exact loopRound_under below
  | forLoop init cond step body header bodyShape span =>
    cases init with
    | some init => rfl
    | none => exact loopRound_under below
  | define name binding params body frame span => exact define_under below
  | block body span => cases body <;> rfl
  | ret value span => cases value <;> rfl
  | _ => rfl

theorem resume_under {waiting : Waiting} {value : Value} :
    resume waiting value (stack ++ below) store = (resume waiting value stack store).under below := by
  cases waiting with
  | unary op span => exact result_under below
  | right op left span => exact result_under below
  | logicalLeft op leftSpan right scope =>
    cases value with
    | bool test =>
      simp only [resume, withTruth]
      split <;> rfl
    | _ => rfl
  | logicalRight rightSpan => cases value <;> rfl
  | assign target place op scope span =>
    cases op with
    | none => exact writeVar_under below
    | some op => exact updateVar_under below
  | branch condSpan yes no yesShape noShape scope =>
    cases value with
    | bool test => exact takeBranch_under below
    | _ => rfl
  | loopInit loop => exact loopRound_under below
  | loopCond loop last condSpan =>
    cases value with
    | bool test => cases test <;> rfl
    | _ => rfl
  | loopBody loop last => exact loopNext_under below
  | loopStep loop last => exact loopRound_under below
  | callee calleeSpan args scope span =>
    cases value with
    | function closure => exact callArgs_under below
    | _ => rfl
  | argument closure done rest scope span => exact callArgs_under below
  | default closure frame slot name rest site =>
    simp only [resume]
    split
    · rfl
    · exact bindParams_under below
  | block rest scope => cases rest <;> rfl
  | left | body | ret => rfl

theorem unwind_under {waiting : Waiting} {flow : Flow} :
    unwind waiting flow (stack ++ below) store = (unwind waiting flow stack store).under below := by
  cases waiting with
  | loopBody loop last =>
    cases flow with
    | continueLoop => exact loopNext_under below
    | _ => rfl
  | default closure frame slot name rest site =>
    cases flow with
    | ret value =>
      rw [unwind, unwind]
      exact resume_under below
    | _ => rfl
  | body site => cases flow <;> rfl
  | _ => rfl

/-- The part of a machine that a step looks at: the control, and for a flow what is on top. -/
def Looks (m : Machine) : Prop := ∀ flow, m.control = .deliver flow → m.stack ≠ []

/-- **A step does not see what lies below.** -/
theorem step_under {m : Machine} (h : m.Looks) :
    Machine.step { m with stack := m.stack ++ below } = m.step.under below := by
  obtain ⟨control, stack, store⟩ := m
  cases control with
  | eval node scope => exact start_under below
  | deliver flow =>
    cases stack with
    | nil => exact absurd rfl (h flow rfl)
    | cons waiting stack =>
      cases flow with
      | normal value => exact resume_under below
      | _ => exact unwind_under below

end Machine

/-! ## What is put on the stack -/

/-- The assignment waits for its value. -/
def Waiting.isAssign : Waiting → Bool
  | .assign .. => true
  | _ => false

/-- A call waits for its body, or for a default. -/
def Waiting.isCall : Waiting → Bool
  | .default .. | .body _ => true
  | _ => false

/-- Anything else waits. -/
def Waiting.isQuiet (waiting : Waiting) : Bool := !waiting.isAssign && !waiting.isCall

/-- The function that is called, or whose next parameter is bound, if the value is handed to what waits. -/
def Waiting.calling? (value : Value) : Waiting → Option Closure
  | .callee _ [] _ _ =>
    match value with
    | .function closure => some closure
    | _ => none
  | .argument closure _ [] _ _ => some closure
  | .default closure _ _ _ _ _ => some closure
  | _ => none

namespace Machine

/-- The function that a step calls, or whose next parameter it binds. -/
def calling? (m : Machine) : Option Closure :=
  match m.control, m.stack with
  | .deliver (.normal value), top :: _ => top.calling? value
  | .deliver (.ret _), .default closure _ _ _ _ _ :: _ => some closure
  | _, _ => none

/-- All that waits after the step waited before, or is of the given kind. -/
def Pushes (kind : Waiting → Bool) (stack : List Waiting) (step : Step) : Prop :=
  ∀ waiting ∈ step.stack, waiting ∈ stack ∨ kind waiting = true

variable {kind : Waiting → Bool} {store : Store} {stack : List Waiting}

theorem pushes_ended {step : Step} (h : step.stack = []) : Pushes kind stack step := by
  intro waiting hmem
  rw [h] at hmem
  cases hmem

theorem pushes_same {step : Step} (h : step.stack = stack) : Pushes kind stack step := by
  intro waiting hmem
  rw [h] at hmem
  exact .inl hmem

theorem pushes_push {step : Step} {top : Waiting} (h : step.stack = top :: stack)
    (htop : kind top = true) : Pushes kind stack step := by
  intro waiting hmem
  rw [h] at hmem
  rcases List.mem_cons.mp hmem with rfl | hmem
  · exact .inr htop
  · exact .inl hmem

theorem pushes_result {result : Except Fault Value} {span : Span} :
    Pushes kind stack (Step.result result span stack store) := by
  cases result with
  | ok value => exact pushes_same rfl
  | error fault => exact pushes_ended rfl

theorem pushes_bindParams {closure : Closure} {frame : ScopeId} {site : Option Span} {slot : Nat}
    {params : List Param} {args : List Value} : Pushes Waiting.isCall stack
      (bindParams closure frame site stack slot params args store) := by
  induction params generalizing slot args store with
  | nil => exact pushes_push rfl rfl
  | cons param rest ih =>
    cases args with
    | nil =>
      rw [bindParams]
      split
      · exact pushes_push rfl rfl
      · exact pushes_ended rfl
    | cons arg args =>
      rw [bindParams]
      split
      · exact pushes_ended rfl
      · exact ih

theorem pushes_call {closure : Closure} {args : List Value} {site : Option Span} :
    Pushes Waiting.isCall stack (call closure args site stack store) := by
  rw [call]
  split
  · exact pushes_ended rfl
  · exact pushes_bindParams

theorem pushes_define {name : String} {binding : Option VarRef} {params : List Param} {body : Node}
    {frame : Shape} {scope : ScopeId} {span : Span} :
    Pushes kind stack (define name binding params body frame scope span stack store) := by
  cases binding with
  | none => exact pushes_same rfl
  | some var =>
    simp only [define]
    split
    · exact pushes_ended rfl
    · split
      · exact pushes_same rfl
      · exact pushes_same rfl

theorem pushes_loopRound {loop : Loop} {last : Value} :
    Pushes Waiting.isQuiet stack (loopRound loop last stack store) := by
  rw [loopRound]
  split
  · exact pushes_push rfl rfl
  · exact pushes_push rfl rfl

theorem pushes_loopNext {loop : Loop} {last : Value} :
    Pushes Waiting.isQuiet stack (loopNext loop last stack store) := by
  rw [loopNext]
  split
  · exact pushes_push rfl rfl
  · exact pushes_loopRound

theorem pushes_takeBranch {test : Bool} {yes : Node} {no : Option Node} {yesShape noShape : Shape}
    {scope : ScopeId} :
    Pushes kind stack (takeBranch test yes no yesShape noShape scope stack store) := by
  cases test with
  | true => exact pushes_same rfl
  | false => cases no <;> exact pushes_same rfl

theorem pushes_writeVar {name : String} {place : Place} {value : Value} {scope : ScopeId} {span : Span} :
    Pushes kind stack (writeVar name place value scope span stack store) := by
  rw [writeVar]
  split
  · exact pushes_same rfl
  · exact pushes_ended rfl

theorem pushes_start {node : Node} {scope : ScopeId}
    (h : ∀ target var decl op value span, node ≠ .assign target var decl op value span) :
    Pushes Waiting.isQuiet stack (start node scope stack store) := by
  cases node with
  | ident name var span =>
    rw [start, readVar]
    split
    · exact pushes_same rfl
    · exact pushes_ended rfl
  | binary op left right span =>
    rw [start]
    split
    · exact pushes_push rfl rfl
    · exact pushes_push rfl rfl
  | assign target var decl op value span => exact absurd rfl (h target var decl op value span)
  | whileLoop cond body header bodyShape span =>
    rw [start]
    exact pushes_loopRound
  | forLoop init cond step body header bodyShape span =>
    cases init with
    | some init => exact pushes_push rfl rfl
    | none => exact pushes_loopRound
  | define name binding params body frame span => exact pushes_define
  | block body span =>
    cases body with
    | nil => exact pushes_same rfl
    | cons node rest => exact pushes_push rfl rfl
  | ret value span =>
    cases value with
    | none => exact pushes_same rfl
    | some value => exact pushes_push rfl rfl
  | unary | branch | call => exact pushes_push rfl rfl
  | _ => exact pushes_same rfl

theorem Pushes.mono {kind' : Waiting → Bool} {step : Step} (h : Pushes kind stack step)
    (hkind : ∀ waiting, kind waiting = true → kind' waiting = true) : Pushes kind' stack step := by
  intro waiting hmem
  exact (h waiting hmem).imp_right (hkind waiting)

section Deliver

variable {waiting : Waiting} (hquiet : ∀ waiting, waiting.isQuiet = true → kind waiting = true)

include hquiet

/-- A value is handed to what waits for it. A call is put on the stack by those that call, an assignment
by none. -/
theorem pushes_resume {value : Value}
    (hcall : (calling? ⟨.deliver (.normal value), waiting :: stack, store⟩).isSome →
      ∀ waiting, waiting.isCall = true → kind waiting = true) :
    Pushes kind stack (resume waiting value stack store) := by
  have quiet : ∀ {step}, Pushes Waiting.isQuiet stack step → Pushes kind stack step :=
    fun h => h.mono hquiet
  cases waiting with
  | unary op span => exact pushes_result
  | left op right scope span => exact quiet (pushes_push rfl rfl)
  | right op left span => exact pushes_result
  | logicalLeft op leftSpan right scope =>
    cases value with
    | bool test =>
      simp only [resume, withTruth]
      split
      · exact pushes_same rfl
      · exact quiet (pushes_push rfl rfl)
    | _ => exact pushes_ended rfl
  | logicalRight rightSpan =>
    cases value with
    | bool test => exact pushes_same rfl
    | _ => exact pushes_ended rfl
  | assign target place op scope span =>
    cases op with
    | none => exact pushes_writeVar
    | some op =>
      simp only [resume, updateVar]
      split
      · exact pushes_ended rfl
      · split
        · exact pushes_ended rfl
        · exact pushes_writeVar
  | branch condSpan yes no yesShape noShape scope =>
    cases value with
    | bool test => exact pushes_takeBranch
    | _ => exact pushes_ended rfl
  | loopInit loop => exact quiet pushes_loopRound
  | loopCond loop last condSpan =>
    cases value with
    | bool test =>
      cases test with
      | true => exact quiet (pushes_push rfl rfl)
      | false => exact pushes_same rfl
    | _ => exact pushes_ended rfl
  | loopBody loop last => exact quiet pushes_loopNext
  | loopStep loop last => exact quiet pushes_loopRound
  | callee calleeSpan args scope span =>
    cases value with
    | function closure =>
      cases args with
      | nil =>
        have hpush : Pushes Waiting.isCall stack (call closure [] (some span) stack store) := pushes_call
        exact hpush.mono (hcall rfl)
      | cons arg rest => exact quiet (pushes_push rfl rfl)
    | _ => exact pushes_ended rfl
  | argument closure done rest scope span =>
    cases rest with
    | nil => exact pushes_call.mono (hcall rfl)
    | cons arg rest => exact quiet (pushes_push rfl rfl)
  | default closure frame slot name rest site =>
    simp only [resume]
    split
    · exact pushes_ended rfl
    · exact pushes_bindParams.mono (hcall rfl)
  | body site => exact pushes_same rfl
  | block rest scope =>
    cases rest with
    | nil => exact pushes_same rfl
    | cons node rest => exact quiet (pushes_push rfl rfl)
  | ret => exact pushes_same rfl

theorem pushes_deliver {flow : Flow}
    (hcall : (calling? ⟨.deliver flow, waiting :: stack, store⟩).isSome →
      ∀ waiting, waiting.isCall = true → kind waiting = true) :
    Pushes kind stack (step ⟨.deliver flow, waiting :: stack, store⟩) := by
  cases flow with
  | normal value => exact pushes_resume hquiet hcall
  | continueLoop =>
    cases waiting with
    | loopBody loop last => exact pushes_loopNext.mono hquiet
    | default | body => exact pushes_ended rfl
    | _ => exact pushes_same rfl
  | breakLoop =>
    cases waiting with
    | default | body => exact pushes_ended rfl
    | _ => exact pushes_same rfl
  | ret value =>
    cases waiting with
    | default closure frame slot name rest site =>
      have hpush : Pushes kind stack (resume (.default closure frame slot name rest site) value stack
          store) := pushes_resume hquiet fun _ => hcall rfl
      exact hpush
    | _ => exact pushes_same rfl

end Deliver

/-- An assignment that waits after a step waited before, or the step has started it. -/
theorem assign_of_mem_step {m : Machine} {target : String} {place : Place} {op : Option BinaryOp}
    {scope : ScopeId} {span : Span} (h : .assign target place op scope span ∈ m.step.stack) :
    .assign target place op scope span ∈ m.stack ∨
      ∃ var decl value, m.control = .eval (.assign target var decl op value span) scope ∧
        place = var.place := by
  obtain ⟨control, stack, store⟩ := m
  cases control with
  | eval node inner =>
    by_cases hnode : ∃ target var decl op value span, node = .assign target var decl op value span
    · obtain ⟨target, var, decl, op, value, span, rfl⟩ := hnode
      rcases List.mem_cons.mp h with heq | hmem
      · cases heq
        exact .inr ⟨var, decl, value, rfl, rfl⟩
      · exact .inl hmem
    · simp only [not_exists] at hnode
      exact (pushes_start hnode _ h).imp_right (by intro hquiet; cases hquiet)
  | deliver flow =>
    cases stack with
    | nil => cases flow <;> cases h
    | cons waiting stack =>
      have hpush : Pushes (!·.isAssign) stack (step ⟨.deliver flow, waiting :: stack, store⟩) := by
        refine pushes_deliver (fun waiting hquiet => ?_) (fun _ waiting hcall => ?_)
        · exact (Bool.and_eq_true_iff.mp hquiet).1
        · cases waiting <;> first | rfl | cases hcall
      exact .inl (List.mem_cons_of_mem _ ((hpush _ h).resolve_right Bool.false_ne_true))

/-- A body or a default that waits after a step waited below the top, or the step goes on with a call. -/
theorem calling_of_mem_deliver {flow : Flow} {top waiting : Waiting}
    (h : waiting ∈ (step ⟨.deliver flow, top :: stack, store⟩).stack) (hcall : waiting.isCall = true) :
    waiting ∈ stack ∨ (calling? ⟨.deliver flow, top :: stack, store⟩).isSome := by
  by_cases hcalling : (calling? ⟨.deliver flow, top :: stack, store⟩).isSome
  · exact .inr hcalling
  · have hpush : Pushes (!·.isCall) stack (step ⟨.deliver flow, top :: stack, store⟩) := by
      refine pushes_deliver (fun waiting hquiet => ?_) (fun hsome => absurd hsome hcalling)
      exact (Bool.and_eq_true_iff.mp hquiet).2
    exact .inl ((hpush _ h).resolve_right (by simp [hcall]))

/-- A step that starts a node does not go on with a call. -/
theorem mem_stack_of_mem_eval {node : Node} {scope : ScopeId} {waiting : Waiting}
    (h : waiting ∈ (step ⟨.eval node scope, stack, store⟩).stack) (hcall : waiting.isCall = true) :
    waiting ∈ stack := by
  by_cases hnode : ∃ target var decl op value span, node = .assign target var decl op value span
  · obtain ⟨target, var, decl, op, value, span, rfl⟩ := hnode
    rcases List.mem_cons.mp h with rfl | hmem
    · cases hcall
    · exact hmem
  · simp only [not_exists] at hnode
    refine (pushes_start hnode _ h).resolve_right ?_
    simp [Waiting.isQuiet, hcall]

theorem calling?_congr {flow : Flow} {top : Waiting} (stack other : List Waiting) :
    calling? ⟨.deliver flow, top :: stack, store⟩ = calling? ⟨.deliver flow, top :: other, store⟩ := by
  cases flow with
  | normal value => rfl
  | ret value => cases top <;> rfl
  | breakLoop | continueLoop => rfl

end Machine

end SlotScript
