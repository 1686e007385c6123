import SlotScript.Proofs.Machine.Growth
import SlotScript.Proofs.Machine.LoopControl
import SlotScript.Proofs.Scope.Spanned

/-!
# A running program blames its own nodes

The machine keeps spans for its errors: with an operator that waits, with a condition, with a call.
All of them are spans of nodes that it was given (`Step.Spanned`).

**Theorem (`Program.interpret_spanned`).** If the spans of a program are in a set, an error that the
program ends with has a span, and the span is in the set.

There is one error that a running program has no span for, a `break` or `continue` that nothing
stops. `Session.tame` says that there is none in a program with resolved names.
-/

namespace SlotScript

/-! ## What the machine holds -/

section Spanned

variable (P : Span → Prop)

/-- The spans of the function's body and defaults are in the set. -/
def Closure.Spanned (closure : Closure) : Prop :=
  closure.body.Spanned P ∧ ∀ value ∈ Param.defaults closure.params, value.Spanned P

/-- The spans of a function are in the set. -/
def Value.Spanned : Value → Prop
  | .function closure => closure.Spanned P
  | _ => True

/-- The spans of all functions in the store are in the set. -/
def Store.Spanned (store : Store) : Prop :=
  ∀ cell value, store.read cell = some value → value.Spanned P

/-- The spans of the loop are in the set. -/
structure Loop.Spanned (loop : Loop) : Prop where
  cond : ∀ cond ∈ loop.cond, cond.Spanned P
  step : ∀ step ∈ loop.step, step.Spanned P
  body : loop.body.Spanned P

/-- There is a span, and it is in the set. -/
def Blames (site : Option Span) : Prop := ∃ span, site = some span ∧ P span

/-- The spans of what waits are in the set. -/
def Waiting.Spanned : Waiting → Prop
  | .unary _ span | .logicalRight span | .assign _ _ _ _ span => P span
  | .left _ node _ span | .logicalLeft _ span node _ => P span ∧ node.Spanned P
  | .right _ value span => P span ∧ value.Spanned P
  | .branch span yes no _ _ _ => P span ∧ yes.Spanned P ∧ ∀ node ∈ no, node.Spanned P
  | .loopInit loop => loop.Spanned P
  | .loopCond loop last span => P span ∧ loop.Spanned P ∧ last.Spanned P
  | .loopBody loop last | .loopStep loop last => loop.Spanned P ∧ last.Spanned P
  | .callee calleeSpan args _ span => P calleeSpan ∧ P span ∧ ∀ arg ∈ args, arg.Spanned P
  | .argument closure done rest _ span =>
    P span ∧ closure.Spanned P ∧ (∀ value ∈ done, value.Spanned P) ∧ ∀ arg ∈ rest, arg.Spanned P
  | .default closure _ _ _ rest site =>
    Blames P site ∧ closure.Spanned P ∧ ∀ value ∈ Param.defaults rest, value.Spanned P
  | .body site => Blames P site
  | .block rest _ => ∀ statement ∈ rest, statement.Spanned P
  | .ret => True

/-- The spans of what the flow carries are in the set. -/
def Flow.Spanned : Flow → Prop
  | .normal value | .ret value => value.Spanned P
  | .breakLoop | .continueLoop => True

/-- All spans that the machine holds are in the set, and those of its errors are. -/
def Step.Spanned : Step → Prop
  | .next ⟨.eval node _, stack, store⟩ =>
    store.Spanned P ∧ (∀ waiting ∈ stack, waiting.Spanned P) ∧ node.Spanned P
  | .next ⟨.deliver flow, stack, store⟩ =>
    store.Spanned P ∧ (∀ waiting ∈ stack, waiting.Spanned P) ∧ flow.Spanned P
  | .done flow store => store.Spanned P ∧ flow.Spanned P
  | .failed e _ => Blames P e.span

end Spanned

variable {P : Span → Prop}

theorem Value.spanned_of_isPlain {value : Value} (h : value.isPlain) : value.Spanned P := by
  cases value with
  | function closure => cases h
  | _ => trivial

theorem Store.Spanned.openScope {store : Store} (h : store.Spanned P) (shape : Shape)
    (parent : Option ScopeId) : (store.openScope shape parent).2.Spanned P := by
  intro cell value hread
  rw [read_openScope] at hread
  exact h cell value hread

theorem Store.Spanned.write {store : Store} (h : store.Spanned P) {value : Value}
    (hv : value.Spanned P) (cell : Cell) : (store.write cell value).Spanned P := by
  intro other found hread
  rcases read_write hread with ⟨-, rfl⟩ | hread
  · exact hv
  · exact h other found hread

/-! ## One lemma for each function of the machine -/

section Steps

variable {store : Store} {stack : List Waiting} (hs : store.Spanned P)
  (hw : ∀ waiting ∈ stack, waiting.Spanned P)

include hs hw

theorem spanned_value {value : Value} (h : value.Spanned P) :
    (Step.value value stack store).Spanned P :=
  ⟨hs, hw, h⟩

/-- A node is evaluated while something more waits. -/
theorem spanned_push {node : Node} {scope : ScopeId} {waiting : Waiting}
    (hwaiting : waiting.Spanned P) (h : node.Spanned P) :
    (Step.eval node scope (waiting :: stack) store).Spanned P :=
  ⟨hs, List.forall_mem_cons.2 ⟨hwaiting, hw⟩, h⟩

theorem spanned_result {result : Except Fault Value} (hr : Plain result) {span : Span} (h : P span) :
    (Step.result result span stack store).Spanned P := by
  cases result with
  | ok value => exact spanned_value hs hw (Value.spanned_of_isPlain hr)
  | error fault => exact ⟨span, rfl, h⟩

omit hs hw in
theorem spanned_withTruth {value : Value} {span : Span} {go : Bool → Step} (h : P span)
    (hgo : ∀ test, (go test).Spanned P) : (Machine.withTruth value span store go).Spanned P := by
  cases value with
  | bool test => exact hgo test
  | _ => exact ⟨span, rfl, h⟩

theorem spanned_runBlock {last : Value} {statements : List Node} {scope : ScopeId}
    (hl : last.Spanned P) (h : ∀ statement ∈ statements, statement.Spanned P) :
    (Machine.runBlock last statements scope stack store).Spanned P := by
  cases statements with
  | nil => exact spanned_value hs hw hl
  | cons statement rest =>
    rw [List.forall_mem_cons] at h
    exact spanned_push hs hw h.2 h.1

theorem spanned_readVar {name : String} {place : Place} {scope : ScopeId} {span : Span}
    (h : P span) : (Machine.readVar name place scope span stack store).Spanned P := by
  unfold Machine.readVar
  split
  · rename_i value hvalue
    obtain ⟨cell, -, hread⟩ := Store.read_of_lookup hvalue
    exact spanned_value hs hw (hs cell value hread)
  · exact ⟨span, rfl, h⟩

theorem spanned_writeVar {name : String} {place : Place} {value : Value} {scope : ScopeId}
    {span : Span} (h : P span) (hv : value.Spanned P) :
    (Machine.writeVar name place value scope span stack store).Spanned P := by
  unfold Machine.writeVar
  split
  · rename_i cell hcell
    exact spanned_value (hs.write hv cell) hw hv
  · exact ⟨span, rfl, h⟩

theorem spanned_updateVar {name : String} {place : Place} {op : BinaryOp} {value : Value}
    {scope : ScopeId} {span : Span} (h : P span) :
    (Machine.updateVar name place op value scope span stack store).Spanned P := by
  unfold Machine.updateVar
  split
  · exact ⟨span, rfl, h⟩
  · rename_i current _
    have hplain := plain_applyBinary current value op
    split
    · exact ⟨span, rfl, h⟩
    · rename_i result hresult
      rw [hresult] at hplain
      exact spanned_writeVar hs hw h (Value.spanned_of_isPlain hplain)

theorem spanned_define {name : String} {binding : Option VarRef} {params : List Param} {body : Node}
    {frame : Shape} {scope : ScopeId} {span : Span} (h : P span) (hb : body.Spanned P)
    (hp : ∀ value ∈ Param.defaults params, value.Spanned P) :
    (Machine.define name binding params body frame scope span stack store).Spanned P := by
  have hs : { store with closures := store.closures + 1 }.Spanned P := hs
  have hf : (Value.function ⟨store.closures, name, params, body, frame, scope, span⟩).Spanned P :=
    ⟨hb, hp⟩
  unfold Machine.define
  simp only
  split
  · exact spanned_value hs hw hf
  · split
    · exact ⟨span, rfl, h⟩
    · rename_i cell hcell
      have hwritten := hs.write hf cell
      split
      · exact spanned_value (hwritten.write hf (.global name)) hw hf
      · exact spanned_value hwritten hw hf

theorem spanned_bindParams {closure : Closure} {frame : ScopeId} {site : Option Span} {slot : Nat}
    {params : List Param} {args : List Value} (hsite : Blames P site) (hc : closure.Spanned P)
    (hp : ∀ value ∈ Param.defaults params, value.Spanned P)
    (ha : ∀ arg ∈ args, arg.Spanned P) :
    (Machine.bindParams closure frame site stack slot params args store).Spanned P := by
  induction params generalizing slot args store with
  | nil => exact spanned_push hs hw hsite hc.1
  | cons param rest ih =>
    obtain ⟨name, value, span⟩ := param
    rw [defaults_cons, List.forall_mem_append] at hp
    cases args with
    | nil =>
      cases value with
      | some value => exact spanned_push hs hw ⟨hsite, hc, hp.2⟩ (hp.1 value (by simp))
      | none => exact hsite
    | cons arg args =>
      rw [List.forall_mem_cons] at ha
      simp only [Machine.bindParams]
      split
      · exact hsite
      · rename_i cell hcell
        exact ih (hs.write ha.1 cell) hp.2 ha.2

theorem spanned_call {closure : Closure} {args : List Value} {site : Option Span}
    (hsite : Blames P site) (hc : closure.Spanned P) (ha : ∀ arg ∈ args, arg.Spanned P) :
    (Machine.call closure args site stack store).Spanned P := by
  unfold Machine.call
  split
  · exact hsite
  · exact spanned_bindParams (hs.openScope closure.frame _) hw hsite hc hc.2 ha

theorem spanned_callArgs {closure : Closure} {done : List Value} {args : List Node}
    {scope : ScopeId} {span : Span} (h : P span) (hc : closure.Spanned P)
    (hd : ∀ value ∈ done, value.Spanned P) (ha : ∀ arg ∈ args, arg.Spanned P) :
    (Machine.callArgs closure done args scope span stack store).Spanned P := by
  cases args with
  | nil =>
    exact spanned_call hs hw ⟨span, rfl, h⟩ hc fun arg harg => hd arg (List.mem_reverse.1 harg)
  | cons arg rest =>
    rw [List.forall_mem_cons] at ha
    exact spanned_push hs hw ⟨h, hc, hd, ha.2⟩ ha.1

theorem spanned_takeBranch {test : Bool} {yes : Node} {no : Option Node} {yesShape noShape : Shape}
    {scope : ScopeId} (hy : yes.Spanned P) (hn : ∀ node ∈ no, node.Spanned P) :
    (Machine.takeBranch test yes no yesShape noShape scope stack store).Spanned P := by
  unfold Machine.takeBranch
  split
  · exact ⟨hs.openScope _ _, hw, hy⟩
  · exact ⟨hs.openScope _ _, hw, hn _ rfl⟩
  · exact spanned_value hs hw trivial

section Loops

variable {loop : Loop} {last : Value} (h : loop.Spanned P) (hv : last.Spanned P)

include h hv

theorem spanned_loopEnter : (Machine.loopEnter loop last stack store).Spanned P :=
  spanned_push (hs.openScope _ _) hw ⟨h, hv⟩ h.body

theorem spanned_loopRound : (Machine.loopRound loop last stack store).Spanned P := by
  unfold Machine.loopRound
  split
  · rename_i cond hcond
    have hcond := h.cond cond hcond
    exact spanned_push hs hw ⟨hcond.span, h, hv⟩ hcond
  · exact spanned_loopEnter hs hw h hv

theorem spanned_loopNext : (Machine.loopNext loop last stack store).Spanned P := by
  unfold Machine.loopNext
  split
  · rename_i step hstep
    exact spanned_push hs hw ⟨h, hv⟩ (h.step step hstep)
  · exact spanned_loopRound hs hw h hv

end Loops

theorem spanned_start {node : Node} {scope : ScopeId} (h : node.Spanned P) :
    (Machine.start node scope stack store).Spanned P := by
  have hspan := h.span
  cases node with
  | int | float | bool | str | null => exact spanned_value hs hw trivial
  | ident => exact spanned_readVar hs hw hspan
  | unary op operand span => exact spanned_push hs hw hspan (h.part (by simp [Node.parts]))
  | binary op left right span =>
    have hleft : left.Spanned P := h.part (by simp [Node.parts])
    have hright : right.Spanned P := h.part (by simp [Node.parts])
    simp only [Machine.start]
    split
    · exact spanned_push hs hw ⟨hleft.span, hright⟩ hleft
    · exact spanned_push hs hw ⟨hspan, hright⟩ hleft
  | assign target var decl op value span =>
    exact spanned_push hs hw hspan (h.part (by simp [Node.parts]))
  | branch cond yes no yesShape noShape span =>
    have hcond : cond.Spanned P := h.part (by simp [Node.parts])
    have hyes : yes.Spanned P := h.part (by simp [Node.parts])
    have hno : ∀ no' ∈ no, no'.Spanned P := fun no' hno => h.part (by simp_all [Node.parts])
    exact spanned_push hs hw ⟨hcond.span, hyes, hno⟩ hcond
  | whileLoop cond body header bodyShape span =>
    have hloop : Loop.Spanned P ⟨some cond, none, body, bodyShape, store.scopes.size⟩ :=
      ⟨fun cond' hcond => h.part (by simp_all [Node.parts]), by simp, h.part (by simp [Node.parts])⟩
    exact spanned_loopRound (hs.openScope _ _) hw hloop trivial
  | forLoop init cond step body header bodyShape span =>
    have hloop : Loop.Spanned P ⟨cond, step, body, bodyShape, store.scopes.size⟩ :=
      ⟨fun cond' hcond => h.part (by simp_all [Node.parts]),
        fun step' hstep => h.part (by simp_all [Node.parts]), h.part (by simp [Node.parts])⟩
    cases init with
    | none => exact spanned_loopRound (hs.openScope _ _) hw hloop trivial
    | some init =>
      exact spanned_push (hs.openScope _ _) hw hloop (h.part (by simp [Node.parts]))
  | define name binding params body frame span =>
    exact spanned_define hs hw hspan (h.part (by simp [Node.parts])) fun value hvalue =>
      h.part (by simp_all [Node.parts])
  | call callee args span =>
    have hcallee : callee.Spanned P := h.part (by simp [Node.parts])
    exact spanned_push hs hw ⟨hcallee.span, hspan, fun arg harg => h.part (by simp_all [Node.parts])⟩
      hcallee
  | block body span =>
    exact spanned_runBlock hs hw trivial fun statement hstatement =>
      h.part (by simp_all [Node.parts])
  | breakLoop | continueLoop => exact ⟨hs, hw, trivial⟩
  | ret value span =>
    cases value with
    | none => exact ⟨hs, hw, trivial⟩
    | some value => exact spanned_push hs hw trivial (h.part (by simp [Node.parts]))

theorem spanned_resume {waiting : Waiting} {value : Value} (h : waiting.Spanned P)
    (hv : value.Spanned P) : (Machine.resume waiting value stack store).Spanned P := by
  cases waiting with
  | unary op span => exact spanned_result hs hw (plain_applyUnary op value) h
  | left op right scope span => exact spanned_push hs hw ⟨h.1, hv⟩ h.2
  | right op left span => exact spanned_result hs hw (plain_applyBinary left value op) h.1
  | logicalLeft op span right scope =>
    refine spanned_withTruth h.1 fun test => ?_
    split
    · exact spanned_value hs hw trivial
    · exact spanned_push hs hw h.2.span h.2
  | logicalRight span => exact spanned_withTruth h fun test => spanned_value hs hw trivial
  | assign target place op scope span =>
    cases op with
    | none => exact spanned_writeVar hs hw h hv
    | some op => exact spanned_updateVar hs hw h
  | branch span yes no yesShape noShape scope =>
    exact spanned_withTruth h.1 fun test => spanned_takeBranch hs hw h.2.1 h.2.2
  | loopInit loop => exact spanned_loopRound hs hw h trivial
  | loopCond loop last span =>
    refine spanned_withTruth h.1 fun test => ?_
    split
    · exact spanned_loopEnter hs hw h.2.1 h.2.2
    · exact spanned_value hs hw h.2.2
  | loopBody loop last => exact spanned_loopNext hs hw h.1 hv
  | loopStep loop last => exact spanned_loopRound hs hw h.1 h.2
  | callee calleeSpan args scope span =>
    obtain ⟨hcallee, hspan, hargs⟩ := h
    cases value with
    | function closure => exact spanned_callArgs hs hw hspan hv (by simp) hargs
    | _ => exact ⟨calleeSpan, rfl, hcallee⟩
  | argument closure done rest scope span =>
    obtain ⟨hspan, hc, hd, hrest⟩ := h
    exact spanned_callArgs hs hw hspan hc (List.forall_mem_cons.2 ⟨hv, hd⟩) hrest
  | default closure frame slot name rest site =>
    obtain ⟨hsite, hc, hrest⟩ := h
    simp only [Machine.resume]
    split
    · exact hsite
    · rename_i cell hcell
      exact spanned_bindParams (hs.write hv cell) hw hsite hc hrest (by simp)
  | body => exact spanned_value hs hw hv
  | block rest scope => exact spanned_runBlock hs hw hv h
  | ret => exact ⟨hs, hw, hv⟩

theorem spanned_unwind {waiting : Waiting} {flow : Flow} (h : waiting.Spanned P)
    (hf : flow.Spanned P) : (Machine.unwind waiting flow stack store).Spanned P := by
  unfold Machine.unwind
  split
  · exact spanned_value hs hw h.2
  · exact spanned_loopNext hs hw h.1 h.2
  · exact spanned_value hs hw hf
  · exact h
  · exact h
  · exact spanned_resume hs hw h hf
  · exact h.1
  · exact h.1
  · exact ⟨hs, hw, hf⟩

end Steps

/-- **A step blames a node.** -/
theorem spanned_step {m : Machine} (h : (Step.next m).Spanned P) : m.step.Spanned P := by
  obtain ⟨control, stack, store⟩ := m
  cases control with
  | eval node scope =>
    obtain ⟨hs, hw, hnode⟩ := h
    exact spanned_start hs hw hnode
  | deliver flow =>
    obtain ⟨hs, hw, hf⟩ := h
    cases stack with
    | nil => cases flow <;> exact ⟨hs, hf⟩
    | cons waiting stack =>
      rw [List.forall_mem_cons] at hw
      cases flow with
      | normal value => exact spanned_resume hs hw.2 hw.1 hf
      | breakLoop | continueLoop | ret => exact spanned_unwind hs hw.2 hw.1 hf

/-! ## Runs -/

theorem spanned_run {m : Machine} (h : (Step.next m).Spanned P) (limit : Nat) {last : Step}
    (hlast : (m.run limit).step? = some last) : last.Spanned P := by
  induction limit generalizing m with
  | zero => cases hlast
  | succ limit ih =>
    have hstep := spanned_step h
    rw [Machine.run] at hlast
    cases hnext : m.step with
    | next m' =>
      rw [hnext] at hlast hstep
      exact ih hstep hlast
    | done flow store | failed e store =>
      rw [hnext] at hlast hstep
      cases hlast
      exact hstep

/-- An error of statements has a span of theirs, or it is a `break` or `continue` that nothing
stopped. -/
theorem spanned_runStatements {limit : Nat} {scope : ScopeId} {last : Value}
    {statements : List Node} {store : Store} {e : RunError} (hs : store.Spanned P)
    (h : ∀ statement ∈ statements, statement.Spanned P)
    (hrun : (runStatements limit scope last statements store).1 = .error e) :
    Blames P e.span ∨ e.fault = .impossible .loopControlAtTop := by
  induction statements generalizing last store with
  | nil => cases hrun
  | cons statement rest ih =>
    rw [List.forall_mem_cons] at h
    have hfirst : (Step.next ⟨.eval statement scope, [], store⟩).Spanned P := ⟨hs, by simp, h.1⟩
    have hstep : ∀ {last}, (Machine.evaluate limit statement scope store).step? = some last →
        last.Spanned P := spanned_run hfirst limit
    rw [runStatements] at hrun
    cases hend : Machine.evaluate limit statement scope store with
    | unfinished m =>
      rw [hend] at hrun
      cases hrun
    | failed e' after =>
      rw [hend] at hrun hstep
      cases hrun
      exact Or.inl (hstep rfl)
    | finished flow after =>
      rw [hend] at hrun hstep
      cases flow with
      | normal value => exact ih (hstep rfl).1 h.2 hrun
      | ret value => cases hrun
      | breakLoop | continueLoop =>
        cases hrun
        exact Or.inr rfl

/-- **A program blames its own nodes.** -/
theorem Program.interpret_spanned {raw program : Program} (hp : raw.resolve = .ok program)
    (h : program.Spanned P) {limit : Nat} {e : RunError}
    (hrun : (program.interpret limit []).1 = .error e) : Blames P e.span := by
  have hstore : ((Store.seeded []).openScope program.shape none).2.Spanned P := by
    refine Store.Spanned.openScope (fun cell value hread => ?_) _ _
    cases cell with
    | global name => cases hread
    | slot id index slotClass => simp [Store.read, Store.seeded] at hread
  rcases spanned_runStatements hstore h hrun with hblames | htop
  · exact hblames
  · -- no `break` or `continue` comes to the top of a resolved program
    have hhost : HostRun program [] (program.interpret limit []).2 [] (.error e) :=
      .interpret (Prod.ext hrun rfl) (by simp)
    obtain ⟨a, ha, hshows⟩ := hhost.session
    have htame := ha.tame hp (by decide)
    rcases hshows.error e rfl with hs | ⟨-, hs | hs⟩
    · rw [hs] at htame
      exact absurd htop htame.top
    · rw [hs] at htame
      exact absurd rfl htame.1
    · rw [hs] at htame
      exact absurd rfl htame.2

end SlotScript
