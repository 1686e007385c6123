import SlotScript.Proofs.Machine.Address

/-!
# Where `break` and `continue` end

A `break` or `continue` passes over what waits until it meets a loop's body. The resolver refuses
one that stands outside of every loop of its function; the machine relies on that, and calls it
impossible that one meets the end of a function's body, the end of a default, or the top.

**Theorem (`Session.loop_control_stays`).** In every session of a program that compiles, no
`break` or `continue` reaches the top or the end of a function's body. One that reaches the end of
a default stands in a default of the program, outside of every loop of that default
(`Program.LeavingDefault`).

The exception is real, since the resolver walks a default as if it ran where the definition
stands, in the middle of a loop perhaps, while it runs wherever the function is called.

A stack *catches* if a loop's body comes before the next call (`Caught`). The invariant is that
every node still to be evaluated which may leave a loop (`Node.leaves`) has such a stack under it
(`Guarded`). A function's body never leaves a loop, which is what the resolver checks.
-/

namespace SlotScript

/-! ## Leaving a loop -/

mutual

/-- The node has a `break` or `continue` outside of every loop and function in it, so that its
evaluation may leave a loop around it. -/
def Node.leaves : Node → Bool
  | .breakLoop _ | .continueLoop _ => true
  | .unary _ operand _ => operand.leaves
  | .binary _ left right _ => left.leaves || right.leaves
  | .assign _ _ _ _ value _ => value.leaves
  | .branch cond yes no _ _ _ => cond.leaves || yes.leaves || leavesOption no
  | .whileLoop cond _ _ _ _ => cond.leaves
  | .forLoop init cond step _ _ _ _ => leavesOption init || leavesOption cond || leavesOption step
  | .call callee args _ => callee.leaves || leavesAll args
  | .block body _ => leavesAll body
  | .ret value _ => leavesOption value
  | _ => false

/-- A part that may be missing leaves a loop. -/
def leavesOption : Option Node → Bool
  | none => false
  | some node => node.leaves

/-- One of the nodes leaves a loop. -/
def leavesAll : List Node → Bool
  | [] => false
  | node :: rest => node.leaves || leavesAll rest

end

/-- The program has a default that leaves a loop. -/
def Program.LeavingDefault (program : Program) : Prop :=
  ∃ chain name binding params body frame span value,
    program.Occurs chain (.define name binding params body frame span) ∧
      value ∈ Param.defaults params ∧ value.leaves = true

mutual

/-- The resolver lets a node leave a loop only inside of one. -/
theorem Node.resolve_leaves (inLoop : Bool) (outer : List Context) (here : Context)
    (node : Node) {node' : Node} {after : Context}
    (h : node.resolve inLoop outer here = .ok (node', after)) (hleaves : node'.leaves = true) :
    inLoop = true := by
  match node, resolution_of_resolve h with
  | .unary _ operand _, .unary ho => exact operand.resolve_leaves inLoop outer here ho hleaves
  | .binary _ left right _, .binary hl hr =>
    rcases Bool.or_eq_true_iff.1 hleaves with hleaves | hleaves
    · exact left.resolve_leaves inLoop outer here hl hleaves
    · exact right.resolve_leaves inLoop outer _ hr hleaves
  | .assign _ _ .var _ value _, .var hv => exact value.resolve_leaves inLoop outer _ hv hleaves
  | .assign _ _ .const _ value _, .const hv => exact value.resolve_leaves inLoop outer _ hv hleaves
  | .assign _ _ .plain _ value _, .assign hv _ => exact value.resolve_leaves inLoop outer _ hv hleaves
  | .branch cond yes no _ _ _, .branch hc hy hn =>
    simp only [Node.leaves, Bool.or_eq_true_iff] at hleaves
    rcases hleaves with (hleaves | hleaves) | hleaves
    · exact cond.resolve_leaves inLoop outer here hc hleaves
    · exact yes.resolve_leaves inLoop _ _ hy hleaves
    · exact resolveOption_leaves inLoop _ _ no hn hleaves
  | .whileLoop cond _ _ _ _, .whileLoop hc _ => exact cond.resolve_leaves inLoop _ _ hc hleaves
  | .forLoop init cond step _ _ _ _, .forLoop hi hc hs _ =>
    simp only [Node.leaves, Bool.or_eq_true_iff] at hleaves
    rcases hleaves with (hleaves | hleaves) | hleaves
    · exact resolveOption_leaves inLoop _ _ init hi hleaves
    · exact resolveOption_leaves inLoop _ _ cond hc hleaves
    · exact resolveOption_leaves inLoop _ _ step hs hleaves
  | .call callee args _, .call hc ha =>
    rcases Bool.or_eq_true_iff.1 hleaves with hleaves | hleaves
    · exact callee.resolve_leaves inLoop outer here hc hleaves
    · exact resolveAll_leaves inLoop outer _ args ha hleaves
  | .block body _, .block hb => exact resolveAll_leaves inLoop outer here body hb hleaves
  | .ret value _, .ret hv => exact resolveOption_leaves inLoop outer here value hv hleaves
  | .breakLoop _, .breakLoop hloop | .continueLoop _, .continueLoop hloop => exact hloop
  | .define _ (some _) _ _ _ _, .named _ _ | .define _ none _ _ _ _, .unnamed _ _ => cases hleaves
  | .ident .., .ident | .int .., .int | .float .., .float | .bool .., .bool | .str .., .str
  | .null _, .null => cases hleaves

theorem resolveOption_leaves (inLoop : Bool) (outer : List Context) (here : Context)
    (part : Option Node) {part' : Option Node} {after : Context}
    (h : resolveOption inLoop outer here part = .ok (part', after))
    (hleaves : leavesOption part' = true) : inLoop = true := by
  cases part with
  | none =>
    cases h
    cases hleaves
  | some node =>
    obtain ⟨node', hn, rfl⟩ := resolveOption_some_eq_ok.mp h
    exact node.resolve_leaves inLoop outer here hn hleaves

theorem resolveAll_leaves (inLoop : Bool) (outer : List Context) (here : Context)
    (nodes : List Node) {nodes' : List Node} {after : Context}
    (h : resolveAll inLoop outer here nodes = .ok (nodes', after))
    (hleaves : leavesAll nodes' = true) : inLoop = true := by
  cases nodes with
  | nil =>
    cases h
    cases hleaves
  | cons node rest =>
    obtain ⟨node', between, rest', hn, hr, rfl⟩ := resolveAll_cons_eq_ok.mp h
    rcases Bool.or_eq_true_iff.1 hleaves with hleaves | hleaves
    · exact node.resolve_leaves inLoop outer here hn hleaves
    · exact resolveAll_leaves inLoop outer between rest hr hleaves

end

/-- What is resolved outside of every loop does not leave one. -/
theorem Resolved.not_leaves {chain : List Region} {node : Node} (h : Resolved false chain node) :
    node.leaves ≠ true := by
  obtain ⟨outer, here, raw, after, h, -⟩ := h
  intro hleaves
  cases raw.resolve_leaves false outer here h hleaves

/-! ## Stacks that catch -/

/-- Handed to the stack, a `break` or `continue` meets a loop's body before the end of a call's
body, unless it meets the end of a default first, of a function with a default that leaves. -/
def Caught : List Waiting → Prop
  | [] => False
  | .loopBody _ _ :: _ => True
  | .body _ :: _ => False
  | .default closure _ _ _ _ _ :: _ =>
    ∃ value ∈ Param.defaults closure.params, value.leaves = true
  | _ :: rest => Caught rest

/-- What waits has a part to evaluate yet, on the stack below it, that leaves a loop. -/
def Waiting.leaves : Waiting → Bool
  | .left _ operand _ _ | .logicalLeft _ _ operand _ => operand.leaves
  | .branch _ yes no _ _ _ => yes.leaves || leavesOption no
  | .loopInit loop | .loopCond loop _ _ | .loopBody loop _ | .loopStep loop _ =>
    leavesOption loop.cond || leavesOption loop.step
  | .callee _ args _ _ | .argument _ _ args _ _ => leavesAll args
  | .block rest _ => leavesAll rest
  | _ => false

/-- The function that waits for its call to begin. -/
def Waiting.closure? : Waiting → Option Closure
  | .argument closure _ _ _ _ | .default closure _ _ _ _ _ => some closure
  | _ => none

/-- Everything that waits leaves a loop only if the stack below catches it. -/
def Guarded : List Waiting → Prop
  | [] => True
  | waiting :: rest => (waiting.leaves = true → Caught rest) ∧ Guarded rest

theorem Guarded.push {waiting : Waiting} {stack : List Waiting} (hg : Guarded stack)
    (hw : waiting.leaves = false) : Guarded (waiting :: stack) := by
  refine ⟨fun hl => ?_, hg⟩
  rw [hw] at hl
  cases hl

/-- The fault is none that `break` and `continue` cause, but for defaults that leave. -/
structure Fault.Fair (program : Program) (fault : Fault) : Prop where
  top : fault ≠ .impossible .loopControlAtTop
  body : fault ≠ .impossible .loopControlInBody
  default : fault = .impossible .loopControlInDefault → program.LeavingDefault

/-- Where the machine stands, every `break` and `continue` is caught. -/
def Step.Tame (program : Program) : Step → Prop
  | .next ⟨.eval node _, stack, _⟩ => (node.leaves = true → Caught stack) ∧ Guarded stack
  | .next ⟨.deliver .breakLoop, stack, _⟩ | .next ⟨.deliver .continueLoop, stack, _⟩ =>
    Caught stack ∧ Guarded stack
  | .next ⟨.deliver (.normal _), stack, _⟩ | .next ⟨.deliver (.ret _), stack, _⟩ => Guarded stack
  | .done flow _ => flow ≠ .breakLoop ∧ flow ≠ .continueLoop
  | .failed error _ => error.fault.Fair program

/-! ## One lemma for each function of the machine -/

section Steps

variable {program : Program} {stack : List Waiting} {store : Store}

theorem Fault.fair_of_ne {fault : Fault} (h : ∀ reason, fault ≠ .impossible reason) :
    fault.Fair program :=
  ⟨h _, h _, fun hf => (h _ hf).elim⟩

theorem AccessError.fair_fault (name : String) (e : AccessError) :
    (e.fault name).Fair program := by
  cases e <;> exact ⟨by simp [fault], by simp [fault], by simp [fault]⟩

theorem tame_badAddress {site : Option Span} :
    (Step.raise (.impossible .badAddress) site store).Tame program :=
  ⟨by simp, by simp, by simp⟩

theorem tame_result {result : Except Fault Value} (hr : Plain result) {span : Span}
    (hg : Guarded stack) : (Step.result result span stack store).Tame program := by
  cases result with
  | ok value => exact hg
  | error fault => exact Fault.fair_of_ne hr

/-- A condition that is no truth value fails fairly. -/
theorem tame_withTruth {value : Value} {span : Span} {go : Bool → Step}
    (h : ∀ test, (go test).Tame program) :
    (Machine.withTruth value span store go).Tame program := by
  cases value with
  | bool test => exact h test
  | _ => exact Fault.fair_of_ne (by simp)

theorem tame_runBlock {last : Value} {statements : List Node} {scope : ScopeId}
    (hs : leavesAll statements = true → Caught stack) (hg : Guarded stack) :
    (Machine.runBlock last statements scope stack store).Tame program := by
  cases statements with
  | nil => exact hg
  | cons node rest =>
    have hrest : leavesAll rest = true → Caught stack := fun h => hs (Bool.or_eq_true_iff.2 (.inr h))
    exact ⟨fun h => hs (Bool.or_eq_true_iff.2 (.inl h)), hrest, hg⟩

theorem tame_takeBranch {test : Bool} {yes : Node} {no : Option Node} {yesShape noShape : Shape}
    {scope : ScopeId} (hy : yes.leaves = true → Caught stack)
    (hn : leavesOption no = true → Caught stack) (hg : Guarded stack) :
    (Machine.takeBranch test yes no yesShape noShape scope stack store).Tame program := by
  cases test with
  | true => exact ⟨hy, hg⟩
  | false =>
    cases no with
    | none => exact hg
    | some no => exact ⟨hn, hg⟩

section Loops

variable {loop : Loop} {last : Value}
  (hl : leavesOption loop.cond = true ∨ leavesOption loop.step = true → Caught stack)
  (hg : Guarded stack)

include hl hg

theorem guarded_loop {waiting : Waiting}
    (hw : waiting.leaves = (leavesOption loop.cond || leavesOption loop.step)) :
    Guarded (waiting :: stack) := by
  refine ⟨fun h => hl ?_, hg⟩
  rwa [hw, Bool.or_eq_true_iff] at h

theorem tame_loopEnter : (Machine.loopEnter loop last stack store).Tame program :=
  ⟨fun _ => trivial, guarded_loop hl hg rfl⟩

theorem tame_loopRound : (Machine.loopRound loop last stack store).Tame program := by
  rw [Machine.loopRound]
  split
  · rename_i cond hcond
    refine ⟨fun h => ?_, guarded_loop hl hg rfl⟩
    rw [hcond] at hl
    exact hl (.inl h)
  · exact tame_loopEnter hl hg

theorem tame_loopNext : (Machine.loopNext loop last stack store).Tame program := by
  rw [Machine.loopNext]
  split
  · rename_i step hstep
    refine ⟨fun h => ?_, guarded_loop hl hg rfl⟩
    rw [hstep] at hl
    exact hl (.inr h)
  · exact tame_loopRound hl hg

end Loops

/-- The body of a call does not leave a loop, and a default only if the function has one that
does. -/
theorem tame_bindParams {closure : Closure} {frame : ScopeId} {site : Option Span} {slot : Nat}
    {params : List Param} {args : List Value} (hb : closure.body.leaves ≠ true)
    (hp : ∀ param ∈ params, param ∈ closure.params) (hg : Guarded stack) :
    (Machine.bindParams closure frame site stack slot params args store).Tame program := by
  induction params generalizing slot args store with
  | nil => exact ⟨fun h => (hb h).elim, hg.push rfl⟩
  | cons param rest ih =>
    rw [List.forall_mem_cons] at hp
    cases args with
    | nil =>
      rw [Machine.bindParams]
      split
      · rename_i value hv
        exact ⟨fun h => ⟨value, List.mem_filterMap.2 ⟨param, hp.1, hv⟩, h⟩, hg.push rfl⟩
      · exact Fault.fair_of_ne (by simp)
    | cons arg args =>
      rw [Machine.bindParams]
      split
      · exact tame_badAddress
      · exact ih hp.2

theorem tame_call {closure : Closure} {args : List Value} {site : Option Span}
    (hb : closure.body.leaves ≠ true) (hg : Guarded stack) :
    (Machine.call closure args site stack store).Tame program := by
  rw [Machine.call]
  split
  · exact Fault.fair_of_ne (by simp)
  · exact tame_bindParams hb (fun _ h => h) hg

theorem tame_callArgs {closure : Closure} {done : List Value} {args : List Node} {scope : ScopeId}
    {span : Span} (hb : closure.body.leaves ≠ true) (ha : leavesAll args = true → Caught stack)
    (hg : Guarded stack) :
    (Machine.callArgs closure done args scope span stack store).Tame program := by
  cases args with
  | nil => exact tame_call hb hg
  | cons arg rest =>
    have hrest : leavesAll rest = true → Caught stack := fun h => ha (Bool.or_eq_true_iff.2 (.inr h))
    exact ⟨fun h => ha (Bool.or_eq_true_iff.2 (.inl h)), hrest, hg⟩

theorem tame_define {name : String} {binding : Option VarRef} {params : List Param} {body : Node}
    {frame : Shape} {scope : ScopeId} {span : Span} (hg : Guarded stack) :
    (Machine.define name binding params body frame scope span stack store).Tame program := by
  cases binding with
  | none => exact hg
  | some var =>
    simp only [Machine.define]
    split
    · exact tame_badAddress
    · split
      · exact hg
      · exact hg

theorem tame_readVar {name : String} {place : Place} {scope : ScopeId} {span : Span}
    (hg : Guarded stack) : (Machine.readVar name place scope span stack store).Tame program := by
  rw [Machine.readVar]
  split
  · exact hg
  · exact AccessError.fair_fault name _

theorem tame_writeVar {name : String} {place : Place} {value : Value} {scope : ScopeId}
    {span : Span} (hg : Guarded stack) :
    (Machine.writeVar name place value scope span stack store).Tame program := by
  rw [Machine.writeVar]
  split
  · exact hg
  · exact tame_badAddress

theorem tame_updateVar {name : String} {place : Place} {op : BinaryOp} {value : Value}
    {scope : ScopeId} {span : Span} (hg : Guarded stack) :
    (Machine.updateVar name place op value scope span stack store).Tame program := by
  rw [Machine.updateVar]
  split
  · exact AccessError.fair_fault name _
  · rename_i current _
    have hplain := plain_applyBinary current value op
    split
    · rename_i fault hf
      rw [hf] at hplain
      exact Fault.fair_of_ne hplain
    · exact tame_writeVar hg

theorem tame_start {node : Node} {scope : ScopeId} (hn : node.leaves = true → Caught stack)
    (hg : Guarded stack) : (Machine.start node scope stack store).Tame program := by
  cases node with
  | int | float | bool | str | null => exact hg
  | ident name var span => exact tame_readVar hg
  | unary op operand span => exact ⟨hn, hg.push rfl⟩
  | binary op left right span =>
    simp only [Node.leaves, Bool.or_eq_true_iff] at hn
    rw [Machine.start]
    split
    · exact ⟨fun h => hn (.inl h), fun h => hn (.inr h), hg⟩
    · exact ⟨fun h => hn (.inl h), fun h => hn (.inr h), hg⟩
  | assign target var decl op value span => exact ⟨hn, hg.push rfl⟩
  | branch cond yes no yesShape noShape span =>
    simp only [Node.leaves, Bool.or_eq_true_iff] at hn
    refine ⟨fun h => hn (.inl (.inl h)), fun h => ?_, hg⟩
    rcases Bool.or_eq_true_iff.1 h with h | h
    · exact hn (.inl (.inr h))
    · exact hn (.inr h)
  | whileLoop cond body header bodyShape span =>
    have hl : leavesOption (some cond) = true ∨ leavesOption none = true → Caught stack := by
      rintro (h | h)
      · exact hn h
      · cases h
    show (Machine.loopRound ⟨some cond, none, body, bodyShape, _⟩ .null stack _).Tame program
    exact tame_loopRound hl hg
  | forLoop init cond step body header bodyShape span =>
    simp only [Node.leaves, Bool.or_eq_true_iff] at hn
    have hl : leavesOption cond = true ∨ leavesOption step = true → Caught stack := by
      rintro (h | h)
      · exact hn (.inl (.inr h))
      · exact hn (.inr h)
    cases init with
    | none => exact tame_loopRound hl hg
    | some init =>
      exact ⟨fun h => hn (.inl (.inl h)), fun h => hl (Bool.or_eq_true_iff.1 h), hg⟩
  | define name binding params body frame span => exact tame_define hg
  | call callee args span =>
    simp only [Node.leaves, Bool.or_eq_true_iff] at hn
    exact ⟨fun h => hn (.inl h), fun h => hn (.inr h), hg⟩
  | block body span => exact tame_runBlock hn hg
  | breakLoop | continueLoop => exact ⟨hn rfl, hg⟩
  | ret value span =>
    cases value with
    | none => exact hg
    | some value => exact ⟨hn, hg.push rfl⟩

theorem tame_resume {waiting : Waiting} {value : Value}
    (hw : waiting.leaves = true → Caught stack) (hg : Guarded stack)
    (hcall : ∀ closure, value = .function closure ∨ waiting.closure? = some closure →
      closure.body.leaves ≠ true)
    (hrest : ∀ closure frame slot name rest site, waiting = .default closure frame slot name rest
      site → ∀ param ∈ rest, param ∈ closure.params) :
    (Machine.resume waiting value stack store).Tame program := by
  cases waiting with
  | unary op span => exact tame_result (plain_applyUnary op value) hg
  | left op right scope span => exact ⟨hw, hg.push rfl⟩
  | right op left span => exact tame_result (plain_applyBinary left value op) hg
  | logicalLeft op leftSpan right scope =>
    refine tame_withTruth fun test => ?_
    split
    · exact hg
    · exact ⟨hw, hg.push rfl⟩
  | logicalRight rightSpan => exact tame_withTruth fun test => hg
  | assign target place op scope span =>
    cases op with
    | none => exact tame_writeVar hg
    | some op => exact tame_updateVar hg
  | branch condSpan yes no yesShape noShape scope =>
    simp only [Waiting.leaves, Bool.or_eq_true_iff] at hw
    exact tame_withTruth fun test => tame_takeBranch (fun h => hw (.inl h)) (fun h => hw (.inr h)) hg
  | loopInit loop =>
    simp only [Waiting.leaves, Bool.or_eq_true_iff] at hw
    exact tame_loopRound hw hg
  | loopCond loop last condSpan =>
    simp only [Waiting.leaves, Bool.or_eq_true_iff] at hw
    refine tame_withTruth fun test => ?_
    split
    · exact tame_loopEnter hw hg
    · exact hg
  | loopBody loop last =>
    simp only [Waiting.leaves, Bool.or_eq_true_iff] at hw
    exact tame_loopNext hw hg
  | loopStep loop last =>
    simp only [Waiting.leaves, Bool.or_eq_true_iff] at hw
    exact tame_loopRound hw hg
  | callee calleeSpan args scope span =>
    cases value with
    | function closure => exact tame_callArgs (hcall closure (.inl rfl)) hw hg
    | _ => exact Fault.fair_of_ne (by simp)
  | argument closure done rest scope span => exact tame_callArgs (hcall closure (.inr rfl)) hw hg
  | default closure frame slot name rest site =>
    rw [Machine.resume]
    split
    · exact tame_badAddress
    · exact tame_bindParams (hcall closure (.inr rfl)) (hrest _ _ _ _ _ _ rfl) hg
  | body site => exact hg
  | block rest scope => exact tame_runBlock hw hg
  | ret => exact hg

end Steps

/-! ## Sessions -/

section Sessions

variable {raw program : Program} (hp : raw.resolve = .ok program)

include hp

/-- A function's body is resolved outside of every loop. -/
theorem Program.Occurs.not_leaves {chain : List Region} {name : String} {binding : Option VarRef}
    {params : List Param} {body : Node} {frame : Shape} {span : Span}
    (h : program.Occurs chain (.define name binding params body frame span)) :
    body.leaves ≠ true := by
  obtain ⟨inLoop, hr⟩ := h.resolved hp
  exact hr.body.not_leaves

theorem Closure.Live.not_leaves {heap : Heap} {closure : Closure}
    (h : closure.Live program heap) : closure.body.leaves ≠ true := by
  obtain ⟨chain, binding, ho, -⟩ := h
  exact ho.not_leaves hp

theorem Closure.Calls.not_leaves {heap : Heap} {closure : Closure} {frame : ScopeId} {slot : Nat}
    {rest : List Param} (h : closure.Calls program heap frame slot rest) :
    closure.body.leaves ≠ true := by
  obtain ⟨chain, binding, before, ho, -⟩ := h
  exact ho.not_leaves hp

theorem tame_resume_ready {heap : Heap} {waiting : Waiting} {value : Value} {stack : List Waiting}
    {store : Store} (hr : waiting.Ready program heap) (hv : value.Live program heap)
    (hw : waiting.leaves = true → Caught stack) (hg : Guarded stack) :
    (Machine.resume waiting value stack store).Tame program := by
  refine tame_resume hw hg ?_ ?_
  · rintro closure (rfl | hc)
    · exact Closure.Live.not_leaves hp hv
    · cases waiting <;> cases hc
      · exact hr.1.not_leaves hp
      · obtain ⟨param, -, hcalls⟩ := hr
        exact hcalls.not_leaves hp
  · rintro closure frame slot name rest site rfl param hmem
    obtain ⟨first, -, chain, binding, before, -, -, -, hparams, -⟩ := hr
    rw [hparams]
    exact List.mem_append_right _ (List.mem_cons_of_mem _ hmem)

omit hp in
/-- One that meets the end of a default comes from a default that leaves. -/
theorem fair_of_caught {heap : Heap} {closure : Closure} {frame : ScopeId} {slot : Nat}
    {name : String} {rest : List Param} {site : Option Span} {stack : List Waiting}
    (hr : (Waiting.default closure frame slot name rest site).Ready program heap)
    (hc : Caught (.default closure frame slot name rest site :: stack)) :
    (Fault.impossible .loopControlInDefault).Fair program := by
  obtain ⟨value, hmem, hleaves⟩ := hc
  obtain ⟨param, -, chain, binding, before, ho, -⟩ := hr
  exact ⟨by simp, by simp, fun _ => ⟨chain, _, _, _, _, _, _, value, ho, hmem, hleaves⟩⟩

theorem tame_unwind {heap : Heap} {waiting : Waiting} {flow : Flow} {stack : List Waiting}
    {store : Store} (hr : waiting.Ready program heap) (hf : flow.Live program heap)
    (ht : (Step.deliver flow (waiting :: stack) store).Tame program)
    (hn : ∀ value, flow ≠ .normal value) :
    (Machine.unwind waiting flow stack store).Tame program := by
  cases flow with
  | normal value => exact (hn value rfl).elim
  | ret value =>
    obtain ⟨hw, hg⟩ := ht
    cases waiting with
    | default => exact tame_resume_ready hp hr hf hw hg
    | _ => exact hg
  | breakLoop =>
    obtain ⟨hc, hw, hg⟩ := ht
    cases waiting with
    | loopBody loop last => exact hg
    | body site => exact hc.elim
    | default closure frame slot name rest site => exact fair_of_caught hr hc
    | _ => exact ⟨hc, hg⟩
  | continueLoop =>
    obtain ⟨hc, hw, hg⟩ := ht
    cases waiting with
    | loopBody loop last =>
      simp only [Waiting.leaves, Bool.or_eq_true_iff] at hw
      exact tame_loopNext hw hg
    | body site => exact hc.elim
    | default closure frame slot name rest site => exact fair_of_caught hr hc
    | _ => exact ⟨hc, hg⟩

/-- **A step keeps every `break` and `continue` caught.** -/
theorem tame_step {m : Machine} {regions : List Region} (hr : (Step.next m).Right program regions)
    (ht : (Step.next m).Tame program) : m.step.Tame program := by
  obtain ⟨control, stack, store⟩ := m
  cases control with
  | eval node scope => exact tame_start ht.1 ht.2
  | deliver flow =>
    obtain ⟨hc, hf⟩ := hr
    cases stack with
    | nil =>
      cases flow with
      | normal | ret => exact ⟨by simp, by simp⟩
      | breakLoop | continueLoop => exact ht.1.elim
    | cons waiting stack =>
      have hw := hc.stack waiting List.mem_cons_self
      cases flow with
      | normal value => exact tame_resume_ready hp hw hf ht.1 ht.2
      | breakLoop | continueLoop | ret => exact tame_unwind hp hw hf ht (by simp)

theorem Session.tame {seeds : List (String × Value)} {a : Moment}
    (hseeds : PlainSeeds seeds) (h : Session program seeds a) :
    a.step.Tame program := by
  induction h with
  | refl => exact ⟨by simp, by simp⟩
  | @tail a b ha hn ih =>
    have hright : a.Right program := Session.right hp hseeds ha
    cases hn with
    | step hs =>
      have hstep := hright.step
      rw [hs] at hstep ih
      exact tame_step hp hstep ih
    | statement hs hr =>
      have hmem := hright.rest
      rw [hr, List.forall_mem_cons] at hmem
      exact ⟨fun h => ((Program.resolved_of_mem hp hmem.1).not_leaves h).elim, trivial⟩
    | call he hc hargs =>
      exact tame_call (Closure.Live.not_leaves hp (hright.ended he _ hc)) trivial

end Sessions

/-- **Loop control stays inside.** Whatever a host does with a program that compiles, `break` and
`continue` reach neither the top nor the end of a function's body, and the end of a default only if
one of the program's defaults has a `break` or `continue` outside of the loops in it. The global names are
plain (`PlainSeeds`), so that every function that is called is one of this run. -/
theorem Session.loop_control_stays {source : String} {program : Program}
    {seeds : List (String × Value)} (hsource : compile source = .ok program)
    (hseeds : PlainSeeds seeds) :
    (∀ a, Session program seeds a →
      (∀ store, a.step ≠ .done .breakLoop store ∧ a.step ≠ .done .continueLoop store) ∧
      ∀ e store, a.step = .failed e store → e.fault.Fair program) ∧
    ∀ store known e, HostRun program seeds store known (.error e) → e.fault.Fair program := by
  obtain ⟨raw, hp⟩ := resolve_of_compile hsource
  have hdone : ∀ a, Session program seeds a → ∀ store,
      a.step ≠ .done .breakLoop store ∧ a.step ≠ .done .continueLoop store := by
    intro a ha store
    have ht := ha.tame hp hseeds
    constructor
    · intro hs
      rw [hs] at ht
      exact ht.1 rfl
    · intro hs
      rw [hs] at ht
      exact ht.2 rfl
  have hfailed : ∀ a, Session program seeds a →
      ∀ e store, a.step = .failed e store → e.fault.Fair program := by
    intro a ha e store hs
    have ht := ha.tame hp hseeds
    rw [hs] at ht
    exact ht
  refine ⟨fun a ha => ⟨hdone a ha, hfailed a ha⟩, fun store known e hrun => ?_⟩
  obtain ⟨a, ha, hshows⟩ := hrun.session
  rcases hshows.error e rfl with hs | ⟨-, hs | hs⟩
  · exact hfailed a ha e store hs
  · exact ((hdone a ha store).1 hs).elim
  · exact ((hdone a ha store).2 hs).elim

/-- A call whose default breaks a loop around the definition. -/
theorem Session.loop_control_stays_default : ∃ program,
    compile "while (true) { def f(x = break) { 1 }; f() }" = .ok program ∧
    PlainSeeds [] ∧
    (∀ a, Session program [] a →
      (∀ store, a.step ≠ .done .breakLoop store ∧ a.step ≠ .done .continueLoop store) ∧
      ∀ e store, a.step = .failed e store → e.fault.Fair program) ∧
    ∀ store known e, HostRun program [] store known (.error e) → e.fault.Fair program := by
  obtain ⟨program, h⟩ : ∃ program,
      compile "while (true) { def f(x = break) { 1 }; f() }" = .ok program :=
    compile_ok_of_isOk (by decide +kernel)
  have hseeds : PlainSeeds [] := by decide
  exact ⟨program, h, hseeds, Session.loop_control_stays h hseeds⟩

/-- The fault that a run or a call ended with. -/
def Ending.fault? : Ending → Option Fault
  | .error e => some e.fault
  | _ => none

theorem Ending.eq_error_of_fault? {ending : Ending} {fault : Fault}
    (h : ending.fault? = some fault) : ∃ e, ending = .error e ∧ e.fault = fault := by
  cases ending with
  | error e => exact ⟨e, rfl, Option.some.inj h⟩
  | _ => cases h

/-- The same program does fail: the resolver takes the `break` to be inside the loop, and the
machine finds it outside. -/
theorem HostRun.break_leaves_default : ∃ program store e,
    compile "while (true) { def f(x = break) { 1 }; f() }" = .ok program ∧
    HostRun program [] store [] (.error e) ∧ e.fault = .impossible .loopControlInDefault := by
  have hrun : (compile "while (true) { def f(x = break) { 1 }; f() }").toOption.any (fun program =>
      (program.interpret 20 []).1.fault? = some (.impossible .loopControlInDefault)) = true := by
    decide +kernel
  obtain ⟨program, h⟩ : ∃ program,
      compile "while (true) { def f(x = break) { 1 }; f() }" = .ok program :=
    compile_ok_of_isOk (by decide +kernel)
  rw [h] at hrun
  obtain ⟨e, he, hfault⟩ := Ending.eq_error_of_fault? (of_decide_eq_true hrun)
  have hi : program.interpret 20 [] = (.error e, (program.interpret 20 []).2) := Prod.ext he rfl
  exact ⟨program, _, e, h, .interpret hi (by simp), hfault⟩

end SlotScript
