import SlotScript.Proofs.Machine.Growth
import SlotScript.Proofs.Machine.Session

/-!
# The record is complete

The record of a session names the variables that were assigned. Nothing else happens to the slots
of a store: a slot whose value a step changes is one that the step's record assigns
(`Machine.records_step`, `Moment.Next.recorded`). This does not need that the program was resolved.
-/

namespace SlotScript

/-- The access assigns the cell. -/
def Access.assignsTo (access : Access) (store : Store) (cell : Cell) : Bool :=
  access.assigns && decide (store.cell? access.scope access.place access.name = some cell)

/-- The store grows, and every slot that changes is assigned in the record. -/
structure Records (store : Store) (step : Step) (accesses : List Access) : Prop where
  grows : store.Grows step.store
  slots : ∀ id index slotClass,
    step.store.read (.slot id index slotClass) = store.read (.slot id index slotClass) ∨
      ∃ access ∈ accesses, access.assignsTo step.store (.slot id index slotClass) = true

section Steps

variable {store : Store} {stack : List Waiting}

theorem Records.same {step : Step} {accesses : List Access} (h : step.store = store) :
    Records store step accesses :=
  ⟨by rw [h]; exact .refl store, fun _ _ _ => by rw [h]; exact .inl rfl⟩

theorem Records.openScope {shape : Shape} {parent : Option ScopeId} {step : Step}
    {accesses : List Access} (h : Records (store.openScope shape parent).2 step accesses) :
    Records store step accesses := by
  refine ⟨(store.grows_openScope shape parent).trans h.grows, fun id index slotClass => ?_⟩
  rw [← store.read_openScope shape parent]
  exact h.slots id index slotClass

theorem Records.cons {step : Step} {accesses : List Access} (h : Records store step accesses)
    (access : Access) : Records store step (access :: accesses) := by
  refine ⟨h.grows, fun id index slotClass => ?_⟩
  rcases h.slots id index slotClass with h | ⟨a, ha, h⟩
  · exact .inl h
  · exact .inr ⟨a, List.mem_cons_of_mem _ ha, h⟩

/-- A write goes to the cell of the access that records it. -/
theorem Records.write {name : String} {place : Place} {scope : ScopeId} {cell : Cell}
    {step : Step} {accesses : List Access} (value : Value)
    (hc : store.cell? scope place name = some cell)
    (h : Records (store.write cell value) step accesses) :
    Records store step (⟨name, place, scope, true⟩ :: accesses) := by
  have hg := (store.grows_write cell value).trans h.grows
  refine ⟨hg, fun id index slotClass => ?_⟩
  by_cases hcell : Cell.slot id index slotClass = cell
  · refine .inr ⟨_, List.mem_cons_self, ?_⟩
    simp [Access.assignsTo, hg.cell? hc, hcell]
  · rcases h.slots id index slotClass with h | ⟨a, ha, h⟩
    · rw [store.read_write_of_ne value hcell] at h
      exact .inl h
    · exact .inr ⟨a, List.mem_cons_of_mem _ ha, h⟩

namespace Machine

theorem records_writeVar {name : String} {place : Place} {value : Value} {scope : ScopeId}
    {span : Span} : Records store (writeVar name place value scope span stack store)
      [⟨name, place, scope, true⟩] := by
  rw [writeVar]
  split
  · rename_i cell hcell
    exact .write value hcell (.same (by rfl))
  · exact .same (by rfl)

theorem records_updateVar {name : String} {place : Place} {op : BinaryOp} {value : Value}
    {scope : ScopeId} {span : Span} :
    Records store (updateVar name place op value scope span stack store)
      (updateTrace name place op value scope store).accesses := by
  rw [updateVar, updateTrace]
  cases store.lookup scope place name with
  | error e => exact .same (by rfl)
  | ok current =>
    simp only
    cases applyBinary current value op with
    | error fault => exact .same (by rfl)
    | ok result => exact records_writeVar.cons _

theorem records_bindParams {closure : Closure} {frame : ScopeId} {site : Option Span} {slot : Nat}
    {params : List Param} {args : List Value} :
    Records store (bindParams closure frame site stack slot params args store)
      (paramAccesses frame slot params args) := by
  induction params generalizing slot args store with
  | nil => exact .same (by rfl)
  | cons param rest ih =>
    cases args with
    | nil =>
      rw [bindParams]
      split
      · exact .same (by rfl)
      · exact .same (by rfl)
    | cons arg args =>
      rw [bindParams, paramAccesses]
      split
      · exact .same (by rfl)
      · rename_i cell hcell
        exact .write arg hcell ih

theorem records_call {closure : Closure} {args : List Value} {site : Option Span} :
    Records store (call closure args site stack store) (callTrace closure args store).accesses := by
  rw [call, callTrace]
  split
  · exact .same (by rfl)
  · exact records_bindParams.openScope

theorem records_callArgs {closure : Closure} {done : List Value} {args : List Node}
    {scope : ScopeId} {span : Span} :
    Records store (callArgs closure done args scope span stack store)
      (callArgsTrace closure done args store).accesses := by
  cases args with
  | nil => exact records_call
  | cons arg rest => exact .same (by rfl)

theorem records_define {name : String} {binding : Option VarRef} {params : List Param}
    {body : Node} {frame : Shape} {scope : ScopeId} {span : Span} :
    Records store (define name binding params body frame scope span stack store)
      (defineTrace name binding scope).accesses := by
  -- the count of functions is no slot, nor is the table of global names
  suffices h : Records { store with closures := store.closures + 1 }
      (define name binding params body frame scope span stack store)
      (defineTrace name binding scope).accesses from ⟨h.grows, h.slots⟩
  cases binding with
  | none => exact .same (by rfl)
  | some var =>
    simp only [define, defineTrace]
    split
    · exact .same (by rfl)
    · rename_i cell hcell
      refine .write (.function ⟨store.closures, name, params, body, frame, scope, span⟩) hcell ?_
      split
      · exact ⟨Store.grows_write _ (.global name) _, fun _ _ _ => .inl rfl⟩
      · exact .same (by rfl)

theorem records_loopRound {loop : Loop} {last : Value} :
    Records store (loopRound loop last stack store) (loopRoundTrace loop).accesses := by
  rw [loopRound, loopRoundTrace]
  split
  · exact .same (by rfl)
  · exact .openScope (.same (by rfl))

theorem records_loopNext {loop : Loop} {last : Value} :
    Records store (loopNext loop last stack store) (loopNextTrace loop).accesses := by
  rw [loopNext, loopNextTrace]
  cases loop.step with
  | some step => exact .same (by rfl)
  | none => exact records_loopRound

theorem records_takeBranch {test : Bool} {yes : Node} {no : Option Node} {yesShape noShape : Shape}
    {scope : ScopeId} :
    Records store (takeBranch test yes no yesShape noShape scope stack store)
      (takeBranchTrace test yes no).accesses := by
  cases test with
  | true => exact .openScope (.same (by rfl))
  | false =>
    cases no with
    | none => exact .same (by rfl)
    | some no => exact .openScope (.same (by rfl))

theorem records_start {node : Node} {scope : ScopeId} :
    Records store (start node scope stack store) (startTrace node scope).accesses := by
  cases node with
  | ident name var span =>
    rw [start, readVar]
    split
    · exact .same (by rfl)
    · exact .same (by rfl)
  | binary op left right span =>
    rw [start]
    split
    · exact .same (by rfl)
    · exact .same (by rfl)
  | whileLoop cond body header bodyShape span => exact .openScope (.same (by rfl))
  | forLoop init cond step body header bodyShape span =>
    cases init with
    | some init => exact .openScope (.same (by rfl))
    | none =>
      cases cond with
      | some cond => exact .openScope (.same (by rfl))
      | none => exact .openScope (.openScope (.same (by rfl)))
  | define name binding params body frame span => exact records_define
  | block body span => cases body <;> exact .same (by rfl)
  | ret value span => cases value <;> exact .same (by rfl)
  | _ => exact .same (by rfl)

theorem records_resume {waiting : Waiting} {value : Value} :
    Records store (resume waiting value stack store) (resumeTrace waiting value store).accesses := by
  cases waiting with
  | unary op span =>
    rw [resume]
    cases applyUnary op value <;> exact .same (by rfl)
  | right op left span =>
    rw [resume]
    cases applyBinary left value op <;> exact .same (by rfl)
  | logicalLeft op leftSpan right scope =>
    cases value with
    | bool test =>
      simp only [resume, withTruth]
      split
      · exact .same (by rfl)
      · exact .same (by rfl)
    | _ => exact .same (by rfl)
  | logicalRight rightSpan => cases value <;> exact .same (by rfl)
  | assign target place op scope span =>
    cases op with
    | none => exact records_writeVar
    | some op => exact records_updateVar
  | branch condSpan yes no yesShape noShape scope =>
    cases value with
    | bool test => exact records_takeBranch
    | _ => exact .same (by rfl)
  | loopInit loop => exact records_loopRound
  | loopCond loop last condSpan =>
    cases value with
    | bool test =>
      cases test with
      | true => exact .openScope (.same (by rfl))
      | false => exact .same (by rfl)
    | _ => exact .same (by rfl)
  | loopBody loop last => exact records_loopNext
  | loopStep loop last => exact records_loopRound
  | callee calleeSpan args scope span =>
    cases value with
    | function closure => exact records_callArgs
    | _ => exact .same (by rfl)
  | argument closure done rest scope span => exact records_callArgs
  | default closure frame slot name rest site =>
    simp only [resume, resumeTrace]
    split
    · exact .same (by rfl)
    · rename_i cell hcell
      refine .write value hcell ?_
      rw [← paramAccesses_nil frame (slot + 1) rest]
      exact records_bindParams
  | block rest scope => cases rest <;> exact .same (by rfl)
  | left | body | ret => exact .same (by rfl)

theorem records_unwind {waiting : Waiting} {flow : Flow} :
    Records store (unwind waiting flow stack store) (unwindTrace waiting flow store).accesses := by
  cases waiting with
  | loopBody loop last =>
    cases flow with
    | continueLoop => exact records_loopNext
    | _ => exact .same (by rfl)
  | default closure frame slot name rest site =>
    cases flow with
    | ret value =>
      rw [unwind, unwindTrace]
      exact records_resume
    | _ => exact .same (by rfl)
  | body site => cases flow <;> exact .same (by rfl)
  | _ => exact .same (by rfl)

/-- **Every slot that a step changes is assigned in its record.** -/
theorem records_step (m : Machine) : Records m.store m.step m.trace.accesses := by
  obtain ⟨control, stack, store⟩ := m
  cases control with
  | eval node scope => exact records_start
  | deliver flow =>
    cases stack with
    | nil => exact .same (by rfl)
    | cons waiting stack =>
      cases flow with
      | normal value => exact records_resume
      | _ => exact records_unwind

end Machine

end Steps

/-- The record goes on behind what was used before. -/
theorem Records.behind {store : Store} {step : Step} {accesses : List Access}
    (h : Records store step accesses) (before : List Access) (id : ScopeId) (index : Nat)
    (slotClass : SlotClass) :
    step.store.read (.slot id index slotClass) = store.read (.slot id index slotClass) ∨
      ∃ access ∈ before ++ accesses,
        access.assignsTo step.store (.slot id index slotClass) = true := by
  rcases h.slots id index slotClass with hsame | ⟨access, hmem, ha⟩
  · exact .inl hsame
  · exact .inr ⟨access, List.mem_append_right _ hmem, ha⟩

/-- **Every slot that changes in a session is assigned in its record.** -/
theorem Moment.Next.recorded {a b : Moment} (h : Next a b) (id : ScopeId) (index : Nat)
    (slotClass : SlotClass) :
    b.step.store.read (.slot id index slotClass) = a.step.store.read (.slot id index slotClass) ∨
      ∃ access ∈ b.accesses, access.assignsTo b.step.store (.slot id index slotClass) = true := by
  cases h with
  | @step m hm =>
    rw [show a.step.store = m.store by rw [hm]; rfl]
    exact (Machine.records_step m).behind a.accesses id index slotClass
  | statement hd _ =>
    rw [hd]
    exact .inl rfl
  | call => exact Machine.records_call.behind a.accesses id index slotClass

end SlotScript
