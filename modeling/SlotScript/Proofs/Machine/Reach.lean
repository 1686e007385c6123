import SlotScript.Proofs.Machine.Update

/-!
# Evaluation touches only what it can reach

From a scope one comes to the scope around it, and to the scopes that the functions in its slots
have captured; from the table of global names to the scopes that the functions in it have captured.
`Store.Reaches` is all that one comes to in this way.

**Theorem (`Store.scopes_eq_of_not_reaches`).** Whatever node is evaluated in a scope, and whatever
becomes of it, a scope that was there before and that is reached neither from the scope nor from the
table stays as it was. The same holds of a call, from the function and its arguments.

The set of reached scopes changes with every write, so the invariant does not speak of it. It speaks
of a fixed set that is *closed* (`Store.Confined`): what is in it links to and captures only what is in
it, and all the scopes outside are as they were. The scopes that are reached at the start together with
all the numbers that are not given out yet make such a set. The machine never leaves it, since it gets
at scopes and functions only through those it holds (`Step.Confined`).
-/

namespace SlotScript

/-- The scope that a function has captured. -/
def Value.captured? : Value → Option ScopeId
  | .function closure => some closure.captured
  | _ => none

/-- The scopes that one comes to from the roots and from the table of global names. -/
inductive Store.Reaches (store : Store) (roots : ScopeId → Prop) : ScopeId → Prop
  | root {id : ScopeId} : roots id → Reaches store roots id
  /-- The scope around a scope. -/
  | parent {id outer : ScopeId} {scope : Scope} :
      Reaches store roots id → store.scopes[id]? = some scope → scope.parent = some outer →
      Reaches store roots outer
  /-- What a function in a slot has captured. -/
  | slot {id target : ScopeId} {index : Nat} {slotClass : SlotClass} {value : Value} :
      Reaches store roots id → store.read (.slot id index slotClass) = some value →
      value.captured? = some target → Reaches store roots target
  /-- What a function in the table of global names has captured. -/
  | global {target : ScopeId} {name : String} {value : Value} :
      store.read (.global name) = some value → value.captured? = some target →
      Reaches store roots target

/-! ## A closed set of scopes -/

section Confined

variable (mine : ScopeId → Prop)

/-- A function that has captured a scope of the set, or a plain value. -/
def Value.Confined (value : Value) : Prop := ∀ target, value.captured? = some target → mine target

/-- A slot of a scope of the set, or an entry of the table of global names. -/
def Cell.Confined : Cell → Prop
  | .slot id _ _ => mine id
  | .global _ => True

/-- All that waits belongs to the set. -/
def Waiting.Confined : Waiting → Prop
  | .left _ _ scope _ | .logicalLeft _ _ _ scope | .assign _ _ _ scope _ | .branch _ _ _ _ _ scope
  | .callee _ _ scope _ | .block _ scope => mine scope
  | .right _ value _ => value.Confined mine
  | .loopInit loop => mine loop.header
  | .loopCond loop last _ | .loopBody loop last | .loopStep loop last =>
    mine loop.header ∧ last.Confined mine
  | .argument closure done _ scope _ =>
    mine closure.captured ∧ (∀ value ∈ done, value.Confined mine) ∧ mine scope
  | .default closure frame _ _ _ _ => mine closure.captured ∧ mine frame
  | .unary _ _ | .logicalRight _ | .body _ | .ret => True

/-- The flow carries a value of the set. -/
def Flow.Confined : Flow → Prop
  | .normal value | .ret value => value.Confined mine
  | .breakLoop | .continueLoop => True

/-- The set is closed in the store, and outside of it the store is as `base` was. -/
structure Store.Confined (store base : Store) : Prop where
  grown : base.scopes.size ≤ store.scopes.size
  /-- Scopes of the set link to scopes of the set. -/
  parent : ∀ id scope outer, mine id → store.scopes[id]? = some scope →
    scope.parent = some outer → mine outer
  /-- What is found in the set belongs to it. -/
  values : ∀ cell value, cell.Confined mine → store.read cell = some value → value.Confined mine
  rest : ∀ id, ¬ mine id → store.scopes[id]? = base.scopes[id]?

/-- Where the machine stands, it holds nothing outside of the set. -/
def Step.Confined (base : Store) : Step → Prop
  | .next ⟨.eval _ scope, stack, store⟩ =>
    store.Confined mine base ∧ (∀ waiting ∈ stack, waiting.Confined mine) ∧ mine scope
  | .next ⟨.deliver flow, stack, store⟩ =>
    store.Confined mine base ∧ (∀ waiting ∈ stack, waiting.Confined mine) ∧ flow.Confined mine
  | .done _ store | .failed _ store => store.Confined mine base

end Confined

variable {mine : ScopeId → Prop} {base : Store}

theorem Value.confined_of_isPlain {value : Value} (h : value.isPlain) : value.Confined mine := by
  cases value with
  | function closure => cases h
  | _ =>
    intro target htarget
    cases htarget

theorem Value.confined_function {closure : Closure} :
    (Value.function closure).Confined mine ↔ mine closure.captured := by
  simp [Value.Confined, Value.captured?]

namespace Store

/-! ## Looking, opening and writing -/

variable {store : Store}

/-- The links of a scope of the set stay in the set. -/
theorem Confined.outward (h : store.Confined mine base) {distance : Nat} {id target : ScopeId}
    (hid : mine id) (ht : store.Outward distance id target) : mine target := by
  induction ht with
  | here => exact hid
  | next hscope hparent _ ih => exact ih (h.parent _ _ _ hid hscope hparent)

/-- A place seen from a scope of the set denotes a cell of the set. -/
theorem Confined.cell? (h : store.Confined mine base) {id : ScopeId} {place : Place} {name : String}
    {cell : Cell} (hid : mine id) (hc : store.cell? id place name = some cell) :
    cell.Confined mine := by
  cases cell?_eq_some_iff.mp hc with
  | slot houtward _ _ => exact h.outward hid houtward
  | global => trivial

theorem Confined.lookup (h : store.Confined mine base) {id : ScopeId} {place : Place}
    {name : String} {value : Value} (hid : mine id)
    (hv : store.lookup id place name = .ok value) : value.Confined mine := by
  obtain ⟨cell, hcell, hread⟩ := read_of_lookup hv
  exact h.values cell value (h.cell? hid hcell) hread

theorem Confined.openScope (h : store.Confined mine base) (shape : Shape) {parent : ScopeId}
    (hp : mine parent) (hnew : mine store.scopes.size) :
    (store.openScope shape (some parent)).2.Confined mine base where
  grown := by
    rw [size_openScope]
    exact Nat.le_succ_of_le h.grown
  parent := by
    intro id scope outer hid hscope houter
    have hscope : (store.scopes.push (.ofShape shape (some parent)))[id]? = some scope := hscope
    rw [Array.getElem?_push] at hscope
    split at hscope
    · cases hscope
      cases houter
      exact hp
    · exact h.parent id scope outer hid hscope houter
  values := by
    intro cell value hcell hread
    rw [read_openScope] at hread
    exact h.values cell value hcell hread
  rest := by
    intro id hid
    have hne : id ≠ store.scopes.size := by
      rintro rfl
      exact hid hnew
    show (store.scopes.push _)[id]? = base.scopes[id]?
    rw [Array.getElem?_push, if_neg hne, h.rest id hid]

theorem Confined.write (h : store.Confined mine base) {cell : Cell} {value : Value}
    (hc : cell.Confined mine) (hv : value.Confined mine) :
    (store.write cell value).Confined mine base where
  grown := by
    rw [size_write]
    exact h.grown
  parent := by
    intro id scope outer hid hscope houter
    have hlt : id < store.scopes.size := by
      rw [← size_write store cell value]
      exact (Array.getElem?_eq_some_iff.1 hscope).1
    obtain ⟨scope', hscope', -, hparent⟩ :=
      grows_write store cell value id _ (Array.getElem?_eq_getElem hlt)
    rw [hscope] at hscope'
    cases hscope'
    exact h.parent id _ outer hid (Array.getElem?_eq_getElem hlt) (hparent ▸ houter)
  values := by
    intro other found hother hread
    rcases read_write hread with ⟨-, rfl⟩ | hread
    · exact hv
    · exact h.values other found hother hread
  rest := by
    intro id hid
    cases cell with
    | global name => exact h.rest id hid
    | slot target index slotClass =>
      have hne : target ≠ id := by
        rintro rfl
        exact hid hc
      show (store.scopes.modify target _)[id]? = base.scopes[id]?
      rw [Array.getElem?_modify, if_neg hne, h.rest id hid]

theorem lt_of_openScope (store : Store) {shape : Shape} {parent : Option ScopeId} {top : Nat}
    (h : (store.openScope shape parent).2.scopes.size ≤ top) : store.scopes.size < top := by
  rw [size_openScope] at h
  exact h

/-- What is reached at the start, and all that is opened later, is a closed set. -/
theorem confined_reaches (store : Store) (roots : ScopeId → Prop) :
    store.Confined (fun id => store.Reaches roots id ∨ store.scopes.size ≤ id) store where
  grown := Nat.le_refl _
  parent := by
    intro id scope outer hid hscope houter
    rcases hid with hid | hid
    · exact Or.inl (.parent hid hscope houter)
    · exact absurd (Array.getElem?_eq_some_iff.1 hscope).1 (Nat.not_lt_of_le hid)
  values := by
    intro cell value hcell hread target htarget
    cases cell with
    | global name => exact Or.inl (.global hread htarget)
    | slot id index slotClass =>
      rcases hcell with hid | hid
      · exact Or.inl (.slot hid hread htarget)
      · -- a scope that is not there yet holds nothing
        rw [Store.read, Array.getElem?_eq_none hid] at hread
        cases hread
  rest := fun _ _ => rfl

end Store

/-! ## One lemma for each function of the machine -/

section Steps

variable {store : Store} {stack : List Waiting} {top : Nat}
  (hnew : ∀ id, base.scopes.size ≤ id → id < top → mine id)
  (hs : store.Confined mine base) (hw : ∀ waiting ∈ stack, waiting.Confined mine)

include hs hw

theorem confined_eval {node : Node} {scope : ScopeId} (h : mine scope) :
    (Step.eval node scope stack store).Confined mine base :=
  ⟨hs, hw, h⟩

/-- A node is evaluated while something more waits. -/
theorem confined_push {node : Node} {scope : ScopeId} {waiting : Waiting} (h : mine scope)
    (hwaiting : waiting.Confined mine) :
    (Step.eval node scope (waiting :: stack) store).Confined mine base :=
  ⟨hs, List.forall_mem_cons.2 ⟨hwaiting, hw⟩, h⟩

theorem confined_value {value : Value} (h : value.Confined mine) :
    (Step.value value stack store).Confined mine base :=
  ⟨hs, hw, h⟩

theorem confined_result {result : Except Fault Value} (h : Plain result) {span : Span} :
    (Step.result result span stack store).Confined mine base := by
  cases result with
  | ok value => exact confined_value hs hw (Value.confined_of_isPlain h)
  | error fault => exact hs

omit hw in
theorem confined_withTruth {value : Value} {span : Span} {go : Bool → Step}
    (h : ∀ test, (go test).Confined mine base) :
    (Machine.withTruth value span store go).Confined mine base := by
  cases value with
  | bool test => exact h test
  | _ => exact hs

theorem confined_runBlock {last : Value} {statements : List Node} {scope : ScopeId}
    (hl : last.Confined mine) (h : mine scope) :
    (Machine.runBlock last statements scope stack store).Confined mine base := by
  cases statements with
  | nil => exact confined_value hs hw hl
  | cons node rest => exact confined_push hs hw h h

theorem confined_readVar {name : String} {place : Place} {scope : ScopeId} {span : Span}
    (h : mine scope) : (Machine.readVar name place scope span stack store).Confined mine base := by
  unfold Machine.readVar
  split
  · rename_i value hvalue
    exact confined_value hs hw (hs.lookup h hvalue)
  · exact hs

theorem confined_writeVar {name : String} {place : Place} {value : Value} {scope : ScopeId}
    {span : Span} (h : mine scope) (hv : value.Confined mine) :
    (Machine.writeVar name place value scope span stack store).Confined mine base := by
  unfold Machine.writeVar
  split
  · rename_i cell hcell
    exact confined_value (hs.write (hs.cell? h hcell) hv) hw hv
  · exact hs

theorem confined_updateVar {name : String} {place : Place} {op : BinaryOp} {value : Value}
    {scope : ScopeId} {span : Span} (h : mine scope) :
    (Machine.updateVar name place op value scope span stack store).Confined mine base := by
  unfold Machine.updateVar
  split
  · exact hs
  · rename_i current _
    have hplain := plain_applyBinary current value op
    split
    · exact hs
    · rename_i result hresult
      rw [hresult] at hplain
      exact confined_writeVar hs hw h (Value.confined_of_isPlain hplain)

theorem confined_define {name : String} {binding : Option VarRef} {params : List Param} {body : Node}
    {frame : Shape} {scope : ScopeId} {span : Span} (h : mine scope) :
    (Machine.define name binding params body frame scope span stack store).Confined mine base := by
  -- the count of functions is no part of what is confined
  have hs : { store with closures := store.closures + 1 }.Confined mine base :=
    ⟨hs.grown, hs.parent, hs.values, hs.rest⟩
  have hf : (Value.function ⟨store.closures, name, params, body, frame, scope, span⟩).Confined mine :=
    Value.confined_function.mpr h
  unfold Machine.define
  simp only
  split
  · exact confined_value hs hw hf
  · split
    · exact hs
    · rename_i cell hcell
      have hwritten := hs.write (hs.cell? h hcell) hf
      split
      · have hpublished := hwritten.write (show (Cell.global name).Confined mine from trivial) hf
        exact confined_value hpublished hw hf
      · exact confined_value hwritten hw hf

theorem confined_bindParams {closure : Closure} {frame : ScopeId} {site : Option Span} {slot : Nat}
    {params : List Param} {args : List Value} (hc : mine closure.captured) (hf : mine frame)
    (hargs : ∀ arg ∈ args, arg.Confined mine) :
    (Machine.bindParams closure frame site stack slot params args store).Confined mine base := by
  induction params generalizing slot args store with
  | nil => exact confined_push hs hw hf trivial
  | cons param rest ih =>
    cases args with
    | nil =>
      simp only [Machine.bindParams]
      split
      · exact confined_push hs hw hc ⟨hc, hf⟩
      · exact hs
    | cons arg args =>
      rw [List.forall_mem_cons] at hargs
      simp only [Machine.bindParams]
      split
      · exact hs
      · rename_i cell hcell
        exact ih (hs.write (hs.cell? hf hcell) hargs.1) hargs.2

include hnew

/-- A node is evaluated in a scope that is opened for it. -/
theorem confined_open {node : Node} {shape : Shape} {parent : ScopeId} (h : mine parent)
    (waiting : List Waiting) (hwaiting : ∀ w ∈ waiting, w.Confined mine)
    (htop : store.scopes.size < top) :
    (Step.eval node store.scopes.size (waiting ++ stack)
      (store.openScope shape (some parent)).2).Confined mine base := by
  have hscope := hnew _ hs.grown htop
  refine confined_eval (hs.openScope shape h hscope) (fun w hmem => ?_) hscope
  rcases List.mem_append.1 hmem with hmem | hmem
  · exact hwaiting w hmem
  · exact hw w hmem

theorem confined_takeBranch {test : Bool} {yes : Node} {no : Option Node} {yesShape noShape : Shape}
    {scope : ScopeId} (h : mine scope)
    (htop : (Machine.takeBranch test yes no yesShape noShape scope stack store).store.scopes.size ≤ top) :
    (Machine.takeBranch test yes no yesShape noShape scope stack store).Confined mine base := by
  cases test with
  | true => exact confined_open hnew hs hw h [] (by simp) (store.lt_of_openScope htop)
  | false =>
    cases no with
    | none => exact confined_value hs hw (Value.confined_of_isPlain rfl)
    | some no => exact confined_open hnew hs hw h [] (by simp) (store.lt_of_openScope htop)

section Loops

variable {loop : Loop} {last : Value} (hl : mine loop.header) (hv : last.Confined mine)

include hl hv

theorem confined_loopEnter
    (htop : (Machine.loopEnter loop last stack store).store.scopes.size ≤ top) :
    (Machine.loopEnter loop last stack store).Confined mine base :=
  confined_open hnew hs hw hl [.loopBody loop last] (List.forall_mem_singleton.2 ⟨hl, hv⟩)
    (store.lt_of_openScope htop)

theorem confined_loopRound
    (htop : (Machine.loopRound loop last stack store).store.scopes.size ≤ top) :
    (Machine.loopRound loop last stack store).Confined mine base := by
  unfold Machine.loopRound at htop ⊢
  split
  · exact confined_push hs hw hl ⟨hl, hv⟩
  · rename_i hcond
    rw [hcond] at htop
    exact confined_loopEnter hnew hs hw hl hv htop

theorem confined_loopNext
    (htop : (Machine.loopNext loop last stack store).store.scopes.size ≤ top) :
    (Machine.loopNext loop last stack store).Confined mine base := by
  unfold Machine.loopNext at htop ⊢
  split
  · exact confined_push hs hw hl ⟨hl, hv⟩
  · rename_i hstep
    rw [hstep] at htop
    exact confined_loopRound hnew hs hw hl hv htop

end Loops

theorem confined_call_of_le {closure : Closure} {args : List Value} {site : Option Span}
    (hc : mine closure.captured) (hargs : ∀ arg ∈ args, arg.Confined mine)
    (htop : (Machine.call closure args site stack store).store.scopes.size ≤ top) :
    (Machine.call closure args site stack store).Confined mine base := by
  unfold Machine.call at htop ⊢
  split
  · exact hs
  · rename_i hlength
    rw [if_neg hlength] at htop
    have hbind : Store.Becomes [] (store.openScope closure.frame (some closure.captured)).2
        (Machine.bindParams closure store.scopes.size site stack 0 closure.params args
          (store.openScope closure.frame (some closure.captured)).2).store := Machine.becomes_bindParams
    have hframe := hnew _ hs.grown (store.lt_of_openScope (Nat.le_trans hbind.keeps.size_le htop))
    exact confined_bindParams (hs.openScope closure.frame hc hframe) hw hc hframe hargs

theorem confined_callArgs {closure : Closure} {done : List Value} {args : List Node}
    {scope : ScopeId} {span : Span} (hc : mine closure.captured)
    (hd : ∀ value ∈ done, value.Confined mine) (h : mine scope)
    (htop : (Machine.callArgs closure done args scope span stack store).store.scopes.size ≤ top) :
    (Machine.callArgs closure done args scope span stack store).Confined mine base := by
  cases args with
  | nil =>
    refine confined_call_of_le hnew hs hw hc (fun arg harg => ?_) htop
    exact hd arg (List.mem_reverse.1 harg)
  | cons arg rest => exact confined_push hs hw h ⟨hc, hd, h⟩

theorem confined_start {node : Node} {scope : ScopeId} (h : mine scope)
    (htop : (Machine.start node scope stack store).store.scopes.size ≤ top) :
    (Machine.start node scope stack store).Confined mine base := by
  have hnull : Value.null.Confined mine := Value.confined_of_isPlain rfl
  -- a loop that starts has opened the scope of its header
  have hround : ∀ {header} loop, (Machine.loopRound loop .null stack
      (store.openScope header (some scope)).2).store.scopes.size ≤ top → mine store.scopes.size := by
    intro header loop htop
    have hround : Store.Becomes [] (store.openScope header (some scope)).2 (Machine.loopRound loop .null
        stack (store.openScope header (some scope)).2).store := Machine.becomes_loopRound
    exact hnew _ hs.grown (store.lt_of_openScope (Nat.le_trans hround.keeps.size_le htop))
  cases node with
  | int | float | bool | str | null => exact confined_value hs hw (Value.confined_of_isPlain rfl)
  | ident => exact confined_readVar hs hw h
  | unary => exact confined_push hs hw h trivial
  | binary op left right span =>
    simp only [Machine.start]
    split
    · exact confined_push hs hw h h
    · exact confined_push hs hw h h
  | assign => exact confined_push hs hw h h
  | branch => exact confined_push hs hw h h
  | whileLoop cond body header bodyShape span =>
    let loop : Loop := ⟨some cond, none, body, bodyShape, store.scopes.size⟩
    have hheader : mine loop.header := hround loop htop
    exact confined_loopRound hnew (hs.openScope header h hheader) hw hheader hnull htop
  | forLoop init cond step body header bodyShape span =>
    cases init with
    | none =>
      let loop : Loop := ⟨cond, step, body, bodyShape, store.scopes.size⟩
      have hheader : mine loop.header := hround loop htop
      exact confined_loopRound hnew (hs.openScope header h hheader) hw hheader hnull htop
    | some init =>
      have hheader := hnew _ hs.grown (store.lt_of_openScope htop)
      exact confined_push (hs.openScope header h hheader) hw hheader hheader
  | define => exact confined_define hs hw h
  | call => exact confined_push hs hw h h
  | block => exact confined_runBlock hs hw hnull h
  | breakLoop | continueLoop => exact ⟨hs, hw, trivial⟩
  | ret value span =>
    cases value with
    | none => exact ⟨hs, hw, hnull⟩
    | some value => exact confined_push hs hw h trivial

theorem confined_resume {waiting : Waiting} {value : Value} (h : waiting.Confined mine)
    (hv : value.Confined mine)
    (htop : (Machine.resume waiting value stack store).store.scopes.size ≤ top) :
    (Machine.resume waiting value stack store).Confined mine base := by
  have hnull : Value.null.Confined mine := Value.confined_of_isPlain rfl
  cases waiting with
  | unary op span => exact confined_result hs hw (plain_applyUnary op value)
  | left => exact confined_push hs hw h hv
  | right op left span => exact confined_result hs hw (plain_applyBinary left value op)
  | logicalLeft op leftSpan right scope =>
    refine confined_withTruth hs fun test => ?_
    split
    · exact confined_value hs hw (Value.confined_of_isPlain rfl)
    · exact confined_push hs hw h trivial
  | logicalRight =>
    exact confined_withTruth hs fun test => confined_value hs hw (Value.confined_of_isPlain rfl)
  | assign target place op scope span =>
    cases op with
    | none => exact confined_writeVar hs hw h hv
    | some op => exact confined_updateVar hs hw h
  | branch =>
    cases value with
    | bool test => exact confined_takeBranch hnew hs hw h htop
    | _ => exact hs
  | loopInit loop => exact confined_loopRound hnew hs hw h hnull htop
  | loopCond loop last condSpan =>
    cases value with
    | bool test =>
      cases test with
      | true => exact confined_loopEnter hnew hs hw h.1 h.2 htop
      | false => exact confined_value hs hw h.2
    | _ => exact hs
  | loopBody loop last => exact confined_loopNext hnew hs hw h.1 hv htop
  | loopStep loop last => exact confined_loopRound hnew hs hw h.1 h.2 htop
  | callee calleeSpan args scope span =>
    cases value with
    | function closure =>
      exact confined_callArgs hnew hs hw (Value.confined_function.1 hv) (by simp) h htop
    | _ => exact hs
  | argument closure done rest scope span =>
    exact confined_callArgs hnew hs hw h.1 (List.forall_mem_cons.2 ⟨hv, h.2.1⟩) h.2.2 htop
  | default closure frame slot name rest site =>
    simp only [Machine.resume]
    split
    · exact hs
    · rename_i cell hcell
      exact confined_bindParams (hs.write (hs.cell? h.2 hcell) hv) hw h.1 h.2 (by simp)
  | body => exact confined_value hs hw hv
  | block => exact confined_runBlock hs hw hv h
  | ret => exact ⟨hs, hw, hv⟩

theorem confined_unwind {waiting : Waiting} {flow : Flow} (h : waiting.Confined mine)
    (hf : flow.Confined mine)
    (htop : (Machine.unwind waiting flow stack store).store.scopes.size ≤ top) :
    (Machine.unwind waiting flow stack store).Confined mine base := by
  unfold Machine.unwind at htop ⊢
  split
  · exact confined_value hs hw h.2
  · exact confined_loopNext hnew hs hw h.1 h.2 htop
  · exact confined_value hs hw hf
  · exact hs
  · exact hs
  · exact confined_resume hnew hs hw h hf htop
  · exact hs
  · exact hs
  · exact ⟨hs, hw, hf⟩

end Steps

/-- **A step stays inside the set**, if the set has the scopes that the step opens. -/
theorem confined_step_of_le {m : Machine}
    (hnew : ∀ id, base.scopes.size ≤ id → id < m.step.store.scopes.size → mine id)
    (h : (Step.next m).Confined mine base) : m.step.Confined mine base := by
  obtain ⟨control, stack, store⟩ := m
  cases control with
  | eval node scope =>
    obtain ⟨hs, hw, hscope⟩ := h
    exact confined_start hnew hs hw hscope (Nat.le_refl _)
  | deliver flow =>
    obtain ⟨hs, hw, hf⟩ := h
    cases stack with
    | nil => cases flow <;> exact hs
    | cons waiting stack =>
      rw [List.forall_mem_cons] at hw
      cases flow with
      | normal value => exact confined_resume hnew hs hw.2 hw.1 hf (Nat.le_refl _)
      | breakLoop | continueLoop | ret => exact confined_unwind hnew hs hw.2 hw.1 hf (Nat.le_refl _)

theorem confined_step (hfresh : ∀ id, base.scopes.size ≤ id → mine id) {m : Machine}
    (h : (Step.next m).Confined mine base) : m.step.Confined mine base :=
  confined_step_of_le (fun id hid _ => hfresh id hid) h

theorem confined_call {store : Store} {stack : List Waiting}
    (hfresh : ∀ id, base.scopes.size ≤ id → mine id) (hs : store.Confined mine base)
    (hw : ∀ waiting ∈ stack, waiting.Confined mine) {closure : Closure} {args : List Value}
    {site : Option Span} (hc : mine closure.captured) (hargs : ∀ arg ∈ args, arg.Confined mine) :
    (Machine.call closure args site stack store).Confined mine base :=
  confined_call_of_le (fun id hid _ => hfresh id hid) hs hw hc hargs (Nat.le_refl _)

/-! ## Runs -/

/-- The store that a bounded run leaves behind. -/
def Outcome.store : Outcome → Store
  | .finished _ store | .failed _ store => store
  | .unfinished m => m.store

/-- A run stays inside the set, however long it is. -/
theorem confined_runAfter (hfresh : ∀ id, base.scopes.size ≤ id → mine id) {first : Step}
    (h : first.Confined mine base) (limit : Nat) :
    (Machine.runAfter limit first).store.Confined mine base := by
  induction limit generalizing first with
  | zero =>
    cases first with
    | next m =>
      obtain ⟨control, stack, store⟩ := m
      cases control <;> exact h.1
    | done | failed => exact h
  | succ limit ih =>
    cases first with
    | next m =>
      -- one step, and then a run that is shorter by one
      have hrun : Machine.runAfter (limit + 1) (.next m) = Machine.runAfter limit m.step := rfl
      rw [hrun]
      exact ih (confined_step hfresh h)
    | done | failed => exact h

theorem Closure.call_store (closure : Closure) (limit : Nat) (args : List Value) (store : Store) :
    (closure.call limit args store).2 =
      (Machine.runAfter limit (Machine.call closure args none [] store)).store := by
  unfold Closure.call
  split <;> (rename_i hrun; rw [hrun]; rfl)

/-- **Evaluation only touches what it can reach.** A scope that is in the store stays as it is while a
node is evaluated, unless it is reached from the node's scope or from the table of global names; and
while a function is called, unless it is reached from the function, its arguments or the table. -/
theorem Store.scopes_eq_of_not_reaches (limit : Nat) (store : Store) {id : ScopeId} {scope : Scope}
    (hid : store.scopes[id]? = some scope) :
    (∀ node inner, ¬ store.Reaches (· = inner) id →
      (Machine.evaluate limit node inner store).store.scopes[id]? = some scope) ∧
    ∀ (closure : Closure) (args : List Value),
      ¬ store.Reaches (fun root => ∃ value ∈ .function closure :: args,
        value.captured? = some root) id →
      (closure.call limit args store).2.scopes[id]? = some scope := by
  have hlt : id < store.scopes.size := (Array.getElem?_eq_some_iff.1 hid).1
  -- what is not reached lies outside of the closed set, where nothing changes
  have hrest : ∀ {roots first}, ¬ store.Reaches roots id →
      (first : Step).Confined (fun id => store.Reaches roots id ∨ store.scopes.size ≤ id) store →
      (Machine.runAfter limit first).store.scopes[id]? = some scope := by
    intro roots first hnot hfirst
    have hrun := confined_runAfter (fun _ => Or.inr) hfirst limit
    rw [hrun.rest id fun hmine => hmine.elim hnot (Nat.not_le_of_lt hlt), hid]
  constructor
  · intro node inner hnot
    exact hrest hnot (confined_eval (store.confined_reaches _) (by simp) (Or.inl (.root rfl)))
  · intro closure args hnot
    rw [Closure.call_store]
    have hroot : ∀ value ∈ Value.function closure :: args, value.Confined
        (fun id => store.Reaches (fun root => ∃ value ∈ Value.function closure :: args,
          value.captured? = some root) id ∨ store.scopes.size ≤ id) :=
      fun value hvalue target htarget => Or.inl (.root ⟨value, hvalue, htarget⟩)
    rw [List.forall_mem_cons] at hroot
    exact hrest hnot (confined_call (fun _ => Or.inr) (store.confined_reaches _) (by simp)
      (Value.confined_function.1 hroot.1) hroot.2)

/-- A set that holds the roots and is closed holds all that is reached. -/
theorem Store.Reaches.mem {store : Store} {roots P : ScopeId → Prop} {id : ScopeId}
    (h : store.Reaches roots id) (hroots : ∀ id, roots id → P id) (hs : store.Confined P store) :
    P id := by
  induction h with
  | root hroot => exact hroots _ hroot
  | parent _ hscope hparent ih => exact hs.parent _ _ _ ih hscope hparent
  | slot _ hread htarget ih => exact hs.values (.slot _ _ _) _ ih hread _ htarget
  | global hread htarget => exact hs.values (.global _) _ trivial hread _ htarget

/-- Two calls that count, each in a scope of its own. -/
def Store.counters : Store where
  scopes := #[⟨.program, #[], #[], none⟩, ⟨.function, #[some (.int 1)], #[], some 0⟩,
    ⟨.function, #[some (.int 2)], #[], some 0⟩]

/-- The counters are closed under any set with the program's scope: their calls link to this scope, and
all values are plain. -/
theorem Store.counters_confined {mine : ScopeId → Prop} (hroot : mine 0) :
    counters.Confined mine counters where
  grown := Nat.le_refl _
  parent := by
    intro id scope outer _ hscope houter
    rcases id with _ | _ | _ | id
    · cases hscope
      cases houter
    · cases hscope
      cases houter
      exact hroot
    · cases hscope
      cases houter
      exact hroot
    · cases hscope
  values := by
    intro cell value _ hread
    refine Value.confined_of_isPlain ?_
    cases cell with
    | global name => cases hread
    | slot id index slotClass =>
      rcases id with _ | _ | _ | id <;> cases slotClass <;> cases index <;> cases hread <;> rfl
  rest := fun _ _ => rfl

/-- `n += 1`, so many scopes away from the count. -/
def Node.counting (distance : Nat) : Node :=
  .assign "n" ⟨.reference, .slot distance 0 .var⟩ .plain (some .add) (.int 1 ⟨5, 6⟩) ⟨0, 6⟩

/-- A function that counts in the first call's scope. -/
def Closure.counter : Closure := ⟨0, "next", [], .counting 1, ⟨.function, 0, 0⟩, 1, ⟨0, 6⟩⟩

/-- Counting in the one scope, in place and by a function that has captured it, does not change the
other. -/
theorem Store.scopes_eq_of_not_reaches_counters :
    counters.scopes[2]? = some ⟨.function, #[some (.int 2)], #[], some 0⟩ ∧
    (¬ counters.Reaches (· = 1) 2 ∧
      (Machine.evaluate 9 (.counting 0) 1 counters).store.scopes[2]? =
        some ⟨.function, #[some (.int 2)], #[], some 0⟩) ∧
    ¬ counters.Reaches (fun root => ∃ value ∈ [.function .counter],
      Value.captured? value = some root) 2 ∧
    (Closure.counter.call 9 [] counters).2.scopes[2]? =
      some ⟨.function, #[some (.int 2)], #[], some 0⟩ := by
  have hid : counters.scopes[2]? = some ⟨.function, #[some (.int 2)], #[], some 0⟩ := rfl
  have hnot : ∀ {roots}, (∀ id, roots id → id ≤ 1) → ¬ counters.Reaches roots 2 :=
    fun hroots hreach => absurd (hreach.mem hroots (counters_confined (Nat.zero_le 1))) (by decide)
  have hinner : ¬ counters.Reaches (· = 1) 2 := hnot fun id h => Nat.le_of_eq h
  have hcall : ¬ counters.Reaches (fun root => ∃ value ∈ [.function .counter],
      Value.captured? value = some root) 2 :=
    hnot (by simp [Value.captured?, Closure.counter])
  exact ⟨hid, ⟨hinner, (Store.scopes_eq_of_not_reaches 9 counters hid).1 _ 1 hinner⟩,
    hcall, (Store.scopes_eq_of_not_reaches 9 counters hid).2 _ [] hcall⟩

end SlotScript
