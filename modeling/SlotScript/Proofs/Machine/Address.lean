import SlotScript.Pipeline
import SlotScript.Proofs.Machine.Heap
import SlotScript.Proofs.Machine.Record

/-!
# Every address fits

The resolver gives every variable a place: so many scopes outwards, and a slot there. The
machine follows the links of the scopes it has opened. Both work for themselves, and a place is
only right if the scopes that are open when the variable is used are those that were open when
it was resolved.

**Theorem (`Moment.Typed.addresses`).** Every use of a variable goes out from a scope whose chain
of links was opened for exactly the regions around that use in the program. So the scope it
arrives at was opened for the region that declares the variable, and has the slot.

`Goes` says that a step keeps the heap typed and reaches its variables. There is one lemma about
it for each function of the machine; `goes_step` puts them together, and `Session.right` is the
induction over a session.
-/

namespace SlotScript

/-! ## One lemma for each function of the machine -/

section Steps

variable {program : Program} {heap : Heap} {stack : List Waiting}

theorem Goes.of_right {step : Step} (h : step.Right program heap.regions)
    (hg : heap.store.Grows step.store) : Goes program heap step {} :=
  ⟨by simpa using h, hg, by simp⟩

theorem Goes.openScope {shape : Shape} {parent : Option ScopeId} {region : Region} {step : Step}
    {trace : Trace} (h : Goes program (heap.openScope shape parent region) step trace) :
    Goes program heap step ⟨region :: trace.opened, trace.accesses⟩ := by
  have hr : heap.regions ++ region :: trace.opened =
      (heap.openScope shape parent region).regions ++ trace.opened := by
    simp [Heap.openScope]
  refine ⟨?_, (heap.store.grows_openScope shape parent).trans h.grows, ?_⟩
  · show step.Right program (heap.regions ++ region :: trace.opened)
    rw [hr]
    exact h.right
  · show ∀ a ∈ trace.accesses,
      Reaches program ⟨heap.regions ++ region :: trace.opened, step.store⟩ a.name a.place a.scope
    rw [hr]
    exact h.reaches

theorem Goes.write {cell : Cell} {value : Value} {step : Step} {trace : Trace}
    (h : Goes program (heap.write cell value) step trace) : Goes program heap step trace :=
  ⟨h.right, (heap.store.grows_write cell value).trans h.grows, h.reaches⟩

theorem Goes.access {a : Access} (ha : Reaches program heap a.name a.place a.scope) {step : Step}
    {opened : List Region} {accesses : List Access}
    (h : Goes program heap step ⟨opened, accesses⟩) :
    Goes program heap step ⟨opened, a :: accesses⟩ := by
  refine ⟨h.right, h.grows, fun b hb => ?_⟩
  rcases List.mem_cons.1 hb with rfl | hb
  · exact ha.later ⟨List.prefix_append _ _, h.grows⟩
  · exact h.reaches b hb

theorem goes_eval {node : Node} {scope : ScopeId} (hc : heap.Carries program stack)
    (hn : node.Ready program heap scope) :
    Goes program heap (.eval node scope stack heap.store) {} :=
  .of_right ⟨hc, hn⟩ (.refl _)

theorem goes_deliver {flow : Flow} (hc : heap.Carries program stack)
    (hf : flow.Live program heap) : Goes program heap (.deliver flow stack heap.store) {} :=
  .of_right ⟨hc, hf⟩ (.refl _)

theorem goes_value {value : Value} (hc : heap.Carries program stack)
    (hv : value.Live program heap) : Goes program heap (.value value stack heap.store) {} :=
  goes_deliver hc hv

theorem goes_raise {fault : Fault} {span : Option Span} (hs : heap.Sound program)
    (hf : fault ≠ .impossible .badAddress) :
    Goes program heap (.raise fault span heap.store) {} :=
  .of_right ⟨hs, hf⟩ (.refl _)

theorem goes_result {result : Except Fault Value} (hr : Plain result) {span : Span}
    (hc : heap.Carries program stack) :
    Goes program heap (.result result span stack heap.store) {} := by
  cases result with
  | ok value => exact goes_value hc (Value.live_of_isPlain hr)
  | error fault => exact goes_raise hc.sound (hr _)

theorem Node.Ready.part {node sub : Node} {scope : ScopeId} (hn : node.Ready program heap scope)
    (hp : ([], sub) ∈ node.parts) : sub.Ready program heap scope := by
  obtain ⟨chain, ho, hl⟩ := hn
  exact ⟨chain, ho.part hp, hl⟩

theorem goes_runBlock {last : Value} {statements : List Node} {scope : ScopeId}
    (hc : heap.Carries program stack) (hl : last.Live program heap)
    (hs : ∀ node ∈ statements, node.Ready program heap scope) :
    Goes program heap (Machine.runBlock last statements scope stack heap.store) {} := by
  cases statements with
  | nil => exact goes_value hc hl
  | cons node rest =>
    rw [List.forall_mem_cons] at hs
    exact goes_eval (hc.push hs.2) hs.1

theorem goes_openEval {node : Node} {parent : ScopeId} {chain : List Region} {region : Region}
    {shape : Shape} (hc : heap.Carries program stack) (hl : heap.Lineage parent chain)
    (ho : program.Occurs (region :: chain) node) (hf : region.Fits shape) :
    Goes program heap (.eval node heap.store.scopes.size stack
      (heap.store.openScope shape (some parent)).2) ⟨[region], []⟩ :=
  (goes_eval (hc.openScope shape (some parent) region)
    ⟨_, ho, hc.sound.lineage_openScope hl hf⟩).openScope

theorem goes_takeBranch {test : Bool} {yes : Node} {no : Option Node} {yesShape noShape : Shape}
    {span : Span} {scope : ScopeId} (hc : heap.Carries program stack)
    (hb : (Waiting.branch span yes no yesShape noShape scope).Ready program heap) :
    Goes program heap (Machine.takeBranch test yes no yesShape noShape scope stack heap.store)
      (Machine.takeBranchTrace test yes no) := by
  obtain ⟨chain, hl, hyes, hfits, hno⟩ := hb
  cases test with
  | true => exact goes_openEval hc hl hyes hfits
  | false =>
    cases no with
    | none => exact goes_value hc trivial
    | some no => exact goes_openEval hc hl (hno no rfl).1 (hno no rfl).2

section Loops

variable {loop : Loop}

/-- A loop is ready once the scope of its header is open. -/
theorem Loop.ready_openScope {init : Option Node} {node : Node} {shape : Shape} {scope : ScopeId}
    {chain : List Region} (hr : loop.Runs init node) (hs : heap.Sound program)
    (hl : heap.Lineage scope chain) (ho : program.Occurs chain node)
    (hh : (Region.ofHeader init loop.cond loop.step loop.body).Fits shape)
    (hheader : loop.header = heap.store.scopes.size) :
    loop.Ready program (heap.openScope shape (some scope)
      (.ofHeader init loop.cond loop.step loop.body)) := by
  refine ⟨chain, init, node, hr, ho, ?_⟩
  rw [hheader]
  exact hs.lineage_openScope hl hh

theorem Loop.Runs.parts {init : Option Node} {node : Node} (h : loop.Runs init node)
    {part : Node} (hp : part ∈ loop.cond ∨ part ∈ loop.step) :
    ([.ofHeader init loop.cond loop.step loop.body], part) ∈ node.parts := by
  cases h with
  | whileLoop =>
    rcases hp with hp | hp
    · cases hp
      simp [Node.parts]
    · cases hp
  | forLoop => rcases hp with hp | hp <;> cases hp <;> simp [Node.parts]

theorem Loop.Runs.body {init : Option Node} {node : Node} (h : loop.Runs init node) :
    ([.ofBody loop.body, .ofHeader init loop.cond loop.step loop.body], loop.body) ∈
      node.parts := by
  cases h <;> simp [Node.parts]

theorem Loop.Ready.part (hl : loop.Ready program heap) {part : Node}
    (hp : part ∈ loop.cond ∨ part ∈ loop.step) : part.Ready program heap loop.header := by
  obtain ⟨chain, init, node, hruns, ho, hheader⟩ := hl
  exact ⟨_, ho.part (hruns.parts hp), hheader⟩

end Loops

/-- The next parameter's slot is one of the call's scope. -/
theorem Closure.Calls.reaches {closure : Closure} {frame : ScopeId} {slot : Nat} {param : Param}
    {rest : List Param} (h : closure.Calls program heap frame slot (param :: rest)) :
    Reaches program heap param.name (.slot 0 slot .var) frame := by
  obtain ⟨chain, binding, before, ho, -, hf, hparams, hslot⟩ := h
  refine ⟨_, .param ho ?_, hf⟩
  rw [hparams, ← hslot, List.getElem?_append_right (Nat.le_refl _), Nat.sub_self]
  rfl

theorem Closure.Calls.next {closure : Closure} {frame : ScopeId} {slot : Nat} {param : Param}
    {rest : List Param} (h : closure.Calls program heap frame slot (param :: rest)) :
    closure.Calls program heap frame (slot + 1) rest := by
  obtain ⟨chain, binding, before, ho, hl, hf, hparams, hslot⟩ := h
  exact ⟨chain, binding, before ++ [param], ho, hl, hf, by simp [hparams], by simp [hslot]⟩

theorem Closure.Calls.body {closure : Closure} {frame : ScopeId} {slot : Nat} {rest : List Param}
    (h : closure.Calls program heap frame slot rest) :
    closure.body.Ready program heap frame := by
  obtain ⟨chain, binding, before, ho, -, hf, -⟩ := h
  have hmem : ([closure.region], closure.body) ∈ (Node.define closure.name binding closure.params
    closure.body closure.frame closure.span).parts := List.mem_cons_self
  exact ⟨_, ho.part hmem, hf⟩

theorem Closure.Calls.default {closure : Closure} {frame : ScopeId} {slot : Nat} {param : Param}
    {rest : List Param} (h : closure.Calls program heap frame slot (param :: rest)) {value : Node}
    (hv : param.default = some value) : value.Ready program heap closure.captured := by
  obtain ⟨chain, binding, before, ho, hl, -, hparams, -⟩ := h
  have hparam : param ∈ closure.params := by
    rw [hparams]
    exact List.mem_append_right _ List.mem_cons_self
  have hmem : ([], value) ∈ (Node.define closure.name binding closure.params closure.body
      closure.frame closure.span).parts :=
    List.mem_cons_of_mem _ (List.mem_map.2 ⟨value, List.mem_filterMap.2 ⟨param, hparam, hv⟩, rfl⟩)
  exact ⟨chain, ho.part hmem, hl⟩

variable {raw : Program} (hp : raw.resolve = .ok program)

include hp

theorem Reaches.cell? {name : String} {place : Place} {scope : ScopeId}
    (h : Reaches program heap name place scope) :
    ∃ cell, heap.store.cell? scope place name = some cell := by
  obtain ⟨chain, hm, hl⟩ := h
  exact hl.cell? (hm.within hp)

theorem Reaches.lookup {name : String} {place : Place} {scope : ScopeId}
    (h : Reaches program heap name place scope) (hs : heap.Sound program) :
    (∃ value, heap.store.lookup scope place name = .ok value ∧ value.Live program heap) ∨
      ∃ e, heap.store.lookup scope place name = .error e ∧
        e.fault name ≠ .impossible .badAddress := by
  obtain ⟨cell, hcell⟩ := h.cell? hp
  rw [Store.lookup, hcell]
  cases hr : heap.store.read cell with
  | some value => exact .inl ⟨value, by simp [hr], hs.values cell value hr⟩
  | none => cases cell <;> exact .inr ⟨_, by simp only [hr]; rfl, by simp [AccessError.fault]⟩

theorem Loop.Runs.fits {loop : Loop} {init : Option Node} {node : Node} {chain : List Region}
    (h : loop.Runs init node) (ho : program.Occurs chain node) :
    (Region.ofBody loop.body).Fits loop.bodyShape := by
  have hs := ho.settled hp
  cases h with
  | whileLoop => exact hs.2
  | forLoop => exact hs.2

theorem goes_loopEnter {loop : Loop} {last : Value} (hc : heap.Carries program stack)
    (hl : loop.Ready program heap) (hv : last.Live program heap) :
    Goes program heap (Machine.loopEnter loop last stack heap.store)
      ⟨[.ofBody loop.body], []⟩ := by
  have hpush : heap.Carries program (.loopBody loop last :: stack) := hc.push ⟨hl, hv⟩
  obtain ⟨chain, init, node, hruns, ho, hheader⟩ := hl
  exact goes_openEval hpush hheader (ho.part hruns.body) (hruns.fits hp ho)

theorem goes_loopRound {loop : Loop} {last : Value} (hc : heap.Carries program stack)
    (hl : loop.Ready program heap) (hv : last.Live program heap) :
    Goes program heap (Machine.loopRound loop last stack heap.store)
      (Machine.loopRoundTrace loop) := by
  rw [Machine.loopRound, Machine.loopRoundTrace]
  cases hcond : loop.cond with
  | none => exact goes_loopEnter hp hc hl hv
  | some cond => exact goes_eval (hc.push ⟨hl, hv⟩) (hl.part (.inl hcond))

theorem goes_loopNext {loop : Loop} {last : Value} (hc : heap.Carries program stack)
    (hl : loop.Ready program heap) (hv : last.Live program heap) :
    Goes program heap (Machine.loopNext loop last stack heap.store)
      (Machine.loopNextTrace loop) := by
  rw [Machine.loopNext, Machine.loopNextTrace]
  cases hstep : loop.step with
  | none => exact goes_loopRound hp hc hl hv
  | some step => exact goes_eval (hc.push ⟨hl, hv⟩) (hl.part (.inr hstep))

theorem goes_readVar {name : String} {place : Place} {scope : ScopeId} {span : Span}
    (hc : heap.Carries program stack) (hr : Reaches program heap name place scope) :
    Goes program heap (Machine.readVar name place scope span stack heap.store)
      { accesses := [⟨name, place, scope, false⟩] } := by
  refine Goes.access (a := ⟨name, place, scope, false⟩) hr ?_
  rw [Machine.readVar]
  rcases hr.lookup hp hc.sound with ⟨value, hv, hlive⟩ | ⟨e, he, hne⟩
  · rw [hv]
    exact goes_value hc hlive
  · rw [he]
    exact goes_raise hc.sound hne

theorem goes_writeVar {name : String} {place : Place} {value : Value} {scope : ScopeId}
    {span : Span} (hc : heap.Carries program stack) (hr : Reaches program heap name place scope)
    (hv : value.Live program heap) :
    Goes program heap (Machine.writeVar name place value scope span stack heap.store)
      { accesses := [⟨name, place, scope, true⟩] } := by
  refine Goes.access (a := ⟨name, place, scope, true⟩) hr ?_
  obtain ⟨cell, hcell⟩ := hr.cell? hp
  rw [Machine.writeVar, hcell]
  exact (goes_value (hc.write hv cell) (hv.write cell)).write

theorem goes_updateVar {name : String} {place : Place} {op : BinaryOp} {value : Value}
    {scope : ScopeId} {span : Span} (hc : heap.Carries program stack)
    (hr : Reaches program heap name place scope) :
    Goes program heap (Machine.updateVar name place op value scope span stack heap.store)
      (Machine.updateTrace name place op value scope heap.store) := by
  rw [Machine.updateVar, Machine.updateTrace]
  rcases hr.lookup hp hc.sound with ⟨current, hcur, -⟩ | ⟨e, he, hne⟩
  · simp only [hcur]
    have hplain := plain_applyBinary current value op
    cases happ : applyBinary current value op with
    | error fault =>
      rw [happ] at hplain
      exact Goes.access (a := ⟨name, place, scope, false⟩) hr (goes_raise hc.sound (hplain _))
    | ok result =>
      rw [happ] at hplain
      refine Goes.access (a := ⟨name, place, scope, false⟩) hr ?_
      exact goes_writeVar hp hc hr (Value.live_of_isPlain hplain)
  · rw [he]
    exact Goes.access (a := ⟨name, place, scope, false⟩) hr (goes_raise hc.sound hne)

/-- The arguments and defaults go to slots of the call's scope one by one, and then the body
runs there. -/
theorem goes_bindParams {closure : Closure} {frame : ScopeId} (site : Option Span) {slot : Nat}
    {params : List Param} {args : List Value} (hc : heap.Carries program stack)
    (hcalls : closure.Calls program heap frame slot params)
    (hargs : ∀ arg ∈ args, arg.Live program heap) :
    Goes program heap (Machine.bindParams closure frame site stack slot params args heap.store)
      { accesses := paramAccesses frame slot params args } := by
  induction params generalizing heap slot args with
  | nil =>
    simp only [Machine.bindParams, paramAccesses]
    exact goes_eval (hc.push trivial) hcalls.body
  | cons param rest ih =>
    cases args with
    | nil =>
      simp only [Machine.bindParams, paramAccesses]
      cases hd : param.default with
      | none => exact goes_raise hc.sound (by simp)
      | some value => exact goes_eval (hc.push ⟨param, rfl, hcalls⟩) (hcalls.default hd)
    | cons arg args =>
      rw [List.forall_mem_cons] at hargs
      obtain ⟨cell, hcell⟩ := hcalls.reaches.cell? hp
      have hlater := heap.later_write cell arg
      simp only [Machine.bindParams, paramAccesses, hcell]
      refine Goes.access (a := ⟨param.name, .slot 0 slot .var, frame, true⟩) hcalls.reaches ?_
      exact (ih (hc.write hargs.1 cell) (hcalls.next.later hlater)
        fun v hv => (hargs.2 v hv).later hlater).write

theorem goes_call {closure : Closure} {args : List Value} {site : Option Span}
    (hc : heap.Carries program stack) (hlive : closure.Live program heap)
    (hargs : ∀ arg ∈ args, arg.Live program heap) :
    Goes program heap (Machine.call closure args site stack heap.store)
      (Machine.callTrace closure args heap.store) := by
  rw [Machine.call, Machine.callTrace]
  split
  · exact goes_raise hc.sound (by simp)
  · obtain ⟨chain, binding, ho, hl⟩ := hlive
    have hlater := heap.later_openScope closure.frame (some closure.captured) closure.region
    have hfits : closure.region.Fits closure.frame := (ho.settled hp).2
    exact (goes_bindParams hp site (hc.openScope closure.frame _ closure.region)
      ⟨chain, binding, [], ho, hl.later hlater, hc.sound.lineage_openScope hl hfits, rfl, rfl⟩
      fun v hv => (hargs v hv).later hlater).openScope

theorem goes_callArgs {closure : Closure} {done : List Value} {args : List Node} {scope : ScopeId}
    {span : Span} (hc : heap.Carries program stack) (hlive : closure.Live program heap)
    (hdone : ∀ value ∈ done, value.Live program heap)
    (hargs : ∀ arg ∈ args, arg.Ready program heap scope) :
    Goes program heap (Machine.callArgs closure done args scope span stack heap.store)
      (Machine.callArgsTrace closure done args heap.store) := by
  cases args with
  | nil => exact goes_call hp hc hlive fun v hv => hdone v (List.mem_reverse.1 hv)
  | cons arg rest =>
    rw [List.forall_mem_cons] at hargs
    exact goes_eval (hc.push ⟨hlive, hdone, hargs.2⟩) hargs.1

theorem goes_define {name : String} {binding : Option VarRef} {params : List Param} {body : Node}
    {frame : Shape} {scope : ScopeId} {span : Span} (hc : heap.Carries program stack)
    (hn : (Node.define name binding params body frame span).Ready program heap scope) :
    Goes program heap
      (Machine.define name binding params body frame scope span stack heap.store)
      (Machine.defineTrace name binding scope) := by
  -- counting the function changes nothing that can be read
  let counted : Heap := ⟨heap.regions, { heap.store with closures := heap.store.closures + 1 }⟩
  have hlater : heap.Later counted := ⟨List.prefix_refl _, .refl heap.store⟩
  have hsound : counted.Sound program := by
    refine ⟨hc.sound.size, fun cell value h => (hc.sound.values cell value ?_).later hlater⟩
    cases cell <;> exact h
  have hcounted : counted.Carries program stack := hc.later hlater hsound
  obtain ⟨chain, ho, hl⟩ := hn.later hlater
  have hlive : (Value.function ⟨heap.store.closures, name, params, body, frame, scope, span⟩).Live
    program counted := ⟨chain, binding, ho, hl⟩
  suffices h : Goes program counted
      (Machine.define name binding params body frame scope span stack heap.store)
      (Machine.defineTrace name binding scope) from ⟨h.right, h.grows, h.reaches⟩
  cases binding with
  | none => exact goes_value hcounted hlive
  | some var =>
    have hr : Reaches program counted name var.place scope := ⟨chain, .function ho, hl⟩
    refine Goes.access (a := ⟨name, var.place, scope, true⟩) hr ?_
    obtain ⟨cell, hcell⟩ := hr.cell? hp
    have hstored := hcounted.write hlive cell
    have hlive' := hlive.write cell
    simp only [Machine.define]
    rw [show ({ heap.store with closures := heap.store.closures + 1 } : Store).cell? scope
      var.place name = some cell from hcell]
    simp only
    split
    · exact (goes_value (hstored.write hlive' (.global name)) (hlive'.write _)).write.write
    · exact (goes_value hstored hlive').write

theorem goes_start {node : Node} {scope : ScopeId} (hc : heap.Carries program stack)
    (hn : node.Ready program heap scope) :
    Goes program heap (Machine.start node scope stack heap.store)
      (Machine.startTrace node scope) := by
  cases node with
  | int | float | bool | str | null => exact goes_value hc trivial
  | ident name var span =>
    obtain ⟨chain, ho, hl⟩ := hn
    exact goes_readVar hp hc ⟨chain, .value ho, hl⟩
  | unary op operand span => exact goes_eval (hc.push trivial) (hn.part (by simp [Node.parts]))
  | binary op left right span =>
    have hleft : left.Ready program heap scope := hn.part (by simp [Node.parts])
    have hright : right.Ready program heap scope := hn.part (by simp [Node.parts])
    rw [Machine.start]
    split
    · exact goes_eval (hc.push hright) hleft
    · exact goes_eval (hc.push hright) hleft
  | assign target var decl op value span =>
    have hvalue : value.Ready program heap scope := hn.part (by simp [Node.parts])
    obtain ⟨chain, ho, hl⟩ := hn
    exact goes_eval (hc.push ⟨chain, var, decl, op, value, span, ho, rfl, hl⟩) hvalue
  | branch cond yes no yesShape noShape span =>
    have hcond : cond.Ready program heap scope := hn.part (by simp [Node.parts])
    obtain ⟨chain, ho, hl⟩ := hn
    obtain ⟨hyes, hno⟩ := ho.settled hp
    have hyes' : program.Occurs (.ofBody yes :: chain) yes :=
      ho.part (show ([.ofBody yes], yes) ∈ _ by simp [Node.parts])
    refine goes_eval (hc.push ⟨chain, hl, hyes', hyes, fun node hmem => ⟨?_, hno node hmem⟩⟩) hcond
    cases hmem
    exact ho.part (show ([.ofBody node], node) ∈ _ by simp [Node.parts])
  | whileLoop cond body header bodyShape span =>
    obtain ⟨chain, ho, hl⟩ := hn
    have hready := Loop.ready_openScope .whileLoop hc.sound hl ho (ho.settled hp).1 rfl
    exact (goes_loopRound hp (hc.openScope header _ _) hready Value.live_null).openScope
  | forLoop init cond step body header bodyShape span =>
    obtain ⟨chain, ho, hl⟩ := hn
    have hfits := (ho.settled hp).1
    have hready := Loop.ready_openScope .forLoop hc.sound hl ho hfits rfl
    have hopened := hc.openScope header (some scope) (.ofHeader init cond step body)
    cases init with
    | some init =>
      have hpush := hopened.push (show (Waiting.loopInit _).Ready program _ from hready)
      have hinit := ho.part (show ([.ofHeader (some init) cond step body], init) ∈ _ by
        simp [Node.parts])
      exact (goes_eval hpush ⟨_, hinit, hc.sound.lineage_openScope hl hfits⟩).openScope
    | none => cases cond <;> exact (goes_loopRound hp hopened hready Value.live_null).openScope
  | define name binding params body frame span => exact goes_define hp hc hn
  | call callee args span =>
    have hargs : ∀ arg ∈ args, arg.Ready program heap scope := fun arg harg =>
      hn.part (by simp [Node.parts, harg])
    exact goes_eval (hc.push hargs) (hn.part (by simp [Node.parts]))
  | block body span =>
    exact goes_runBlock hc trivial fun node hmem => hn.part (by simp [Node.parts, hmem])
  | breakLoop | continueLoop => exact goes_deliver hc trivial
  | ret value span =>
    cases value with
    | none => exact goes_deliver hc trivial
    | some value => exact goes_eval (hc.push trivial) (hn.part (by simp [Node.parts]))

theorem goes_resume {waiting : Waiting} {value : Value} (hc : heap.Carries program stack)
    (hw : waiting.Ready program heap) (hv : value.Live program heap) :
    Goes program heap (Machine.resume waiting value stack heap.store)
      (Machine.resumeTrace waiting value heap.store) := by
  cases waiting with
  | unary op span => exact goes_result (plain_applyUnary op value) hc
  | left op right scope span => exact goes_eval (hc.push hv) hw
  | right op left span => exact goes_result (plain_applyBinary left value op) hc
  | logicalLeft op leftSpan right scope =>
    cases value with
    | bool b =>
      simp only [Machine.resume, Machine.withTruth, Machine.resumeTrace]
      split
      · exact goes_value hc trivial
      · exact goes_eval (hc.push trivial) hw
    | _ => exact goes_raise hc.sound (by simp)
  | logicalRight rightSpan =>
    cases value with
    | bool b => exact goes_value hc trivial
    | _ => exact goes_raise hc.sound (by simp)
  | assign target place op scope span =>
    obtain ⟨chain, var, decl, _, node, _, ho, rfl, hl⟩ := hw
    cases op with
    | none => exact goes_writeVar hp hc ⟨chain, .target ho, hl⟩ hv
    | some op => exact goes_updateVar hp hc ⟨chain, .target ho, hl⟩
  | branch condSpan yes no yesShape noShape scope =>
    cases value with
    | bool b => exact goes_takeBranch hc hw
    | _ => exact goes_raise hc.sound (by simp)
  | loopInit loop => exact goes_loopRound hp hc hw trivial
  | loopCond loop last condSpan =>
    cases value with
    | bool b =>
      cases b with
      | true => exact goes_loopEnter hp hc hw.1 hw.2
      | false => exact goes_value hc hw.2
    | _ => exact goes_raise hc.sound (by simp)
  | loopBody loop last => exact goes_loopNext hp hc hw.1 hv
  | loopStep loop last => exact goes_loopRound hp hc hw.1 hw.2
  | callee calleeSpan args scope span =>
    cases value with
    | function closure => exact goes_callArgs hp hc hv (by simp) hw
    | _ => exact goes_raise hc.sound (by simp)
  | argument closure done rest scope span =>
    exact goes_callArgs hp hc hw.1 (List.forall_mem_cons.2 ⟨hv, hw.2.1⟩) hw.2.2
  | default closure frame slot name rest site =>
    obtain ⟨param, rfl, hcalls⟩ := hw
    obtain ⟨cell, hcell⟩ := hcalls.reaches.cell? hp
    simp only [Machine.resume, Machine.resumeTrace, hcell]
    refine Goes.access (a := ⟨param.name, .slot 0 slot .var, frame, true⟩) hcalls.reaches ?_
    have hnext := hcalls.next.later (heap.later_write cell value)
    have hnone : ∀ arg ∈ ([] : List Value), arg.Live program (heap.write cell value) := by simp
    have hbind := goes_bindParams hp site (hc.write hv cell) hnext hnone
    rw [paramAccesses_nil] at hbind
    exact hbind.write
  | body site => exact goes_value hc hv
  | block rest scope => exact goes_runBlock hc hv hw
  | ret => exact goes_deliver hc hv

theorem goes_unwind {waiting : Waiting} {flow : Flow} (hc : heap.Carries program stack)
    (hw : waiting.Ready program heap) (hf : flow.Live program heap) :
    Goes program heap (Machine.unwind waiting flow stack heap.store)
      (Machine.unwindTrace waiting flow heap.store) := by
  cases waiting with
  | loopBody loop last =>
    cases flow with
    | breakLoop => exact goes_value hc hw.2
    | continueLoop => exact goes_loopNext hp hc hw.1 hw.2
    | normal | ret => exact goes_deliver hc hf
  | body site =>
    cases flow with
    | ret value => exact goes_value hc hf
    | breakLoop | continueLoop => exact goes_raise hc.sound (by simp)
    | normal => exact goes_deliver hc hf
  | default closure frame slot name rest site =>
    cases flow with
    | ret value => exact goes_resume hp hc hw hf
    | breakLoop | continueLoop => exact goes_raise hc.sound (by simp)
    | normal => exact goes_deliver hc hf
  | _ => exact goes_deliver hc hf

/-- **A step keeps everything right.** -/
theorem goes_step {m : Machine} {regions : List Region}
    (h : (Step.next m).Right program regions) : Goes program ⟨regions, m.store⟩ m.step m.trace := by
  obtain ⟨control, stack, store⟩ := m
  cases control with
  | eval node scope => exact goes_start hp h.1 h.2
  | deliver flow =>
    obtain ⟨hc, hf⟩ := h
    cases stack with
    | nil => exact .of_right ⟨hc.sound, hf⟩ (.refl _)
    | cons waiting stack =>
      have hw := hc.stack waiting List.mem_cons_self
      have hrest : Heap.Carries program ⟨regions, store⟩ stack :=
        ⟨hc.sound, fun w hmem => hc.stack w (List.mem_cons_of_mem _ hmem)⟩
      cases flow with
      | normal value => exact goes_resume hp hrest hw hf
      | breakLoop | continueLoop | ret => exact goes_unwind hp hrest hw hf

end Steps

/-! ## Sessions -/

/-- The moment is typed: the machine stands right, the host knows values of the heap only, what is
still to run is the program's, and every variable used so far was reached. -/
structure Moment.Typed (program : Program) (a : Moment) : Prop where
  step : a.step.Right program a.regions
  known : ∀ value ∈ a.known, value.Live program ⟨a.regions, a.step.store⟩
  rest : ∀ node ∈ a.rest, node ∈ program.body
  reaches : ∀ access ∈ a.accesses,
    Reaches program ⟨a.regions, a.step.store⟩ access.name access.place access.scope

/-- The moment is right: it is typed, and the program's own scope is the first one. -/
structure Moment.Right (program : Program) (a : Moment) : Prop extends a.Typed program where
  root : Heap.Lineage ⟨a.regions, a.step.store⟩ 0 [.ofProgram program]

theorem Step.Right.sound {program : Program} {regions : List Region} {step : Step}
    (h : step.Right program regions) : Heap.Sound program ⟨regions, step.store⟩ := by
  cases step with
  | next m =>
    obtain ⟨control, stack, store⟩ := m
    cases control <;> exact h.1.sound
  | done flow store => exact h.1
  | failed error store => exact h.1

namespace Moment

variable {program : Program} {seeds : List (String × Value)} {a b : Moment}

theorem Typed.after (h : a.Typed program) {step : Step} {trace : Trace}
    (hg : Goes program ⟨a.regions, a.step.store⟩ step trace) :
    (a.after step trace).Typed program := by
  have hlater : Heap.Later ⟨a.regions, a.step.store⟩ ⟨a.regions ++ trace.opened, step.store⟩ :=
    ⟨List.prefix_append _ _, hg.grows⟩
  refine ⟨hg.right, fun v hv => (h.known v hv).later hlater, h.rest, ?_⟩
  intro access hmem
  rcases List.mem_append.1 hmem with hmem | hmem
  · exact (h.reaches access hmem).later hlater
  · exact hg.reaches access hmem

/-- When the program or the call has ended, the host knows values of the heap only. -/
theorem Typed.ended (h : a.Typed program) {known : List Value} (he : a.ended? = some known) :
    ∀ value ∈ known, value.Live program ⟨a.regions, a.step.store⟩ := by
  obtain ⟨step, rest, before, regions, accesses⟩ := a
  have hstep := h.step
  have hknown := h.known
  cases step with
  | next m => cases he
  | failed error store =>
    cases he
    exact hknown
  | done flow store =>
    cases flow with
    | normal value =>
      cases rest with
      | nil =>
        cases he
        exact List.forall_mem_cons.2 ⟨hstep.2, hknown⟩
      | cons node rest => cases he
    | ret value =>
      cases he
      exact List.forall_mem_cons.2 ⟨hstep.2, hknown⟩
    | breakLoop | continueLoop =>
      cases he
      exact hknown

theorem Typed.goes {raw : Program} (hp : raw.resolve = .ok program) (h : a.Typed program)
    {m : Machine} (hs : a.step = .next m) : Goes program ⟨a.regions, a.step.store⟩ m.step m.trace := by
  have hright := h.step
  rw [hs] at hright ⊢
  exact goes_step hp hright

/-- The next statement of the program starts in a scope that was opened for the program. -/
theorem Typed.statement (h : a.Typed program) {value : Value} {store : Store} {node : Node}
    {rest : List Node} {root : ScopeId} (hs : a.step = .done (.normal value) store)
    (hr : a.rest = node :: rest)
    (hroot : Heap.Lineage ⟨a.regions, a.step.store⟩ root [.ofProgram program]) :
    Moment.Typed program { a with step := .next ⟨.eval node root, [], store⟩, rest := rest } := by
  have hsound := h.step.sound
  have hmem := h.rest
  have hknown := h.known
  have hreaches := h.reaches
  rw [hr, List.forall_mem_cons] at hmem
  rw [hs] at hsound hknown hroot hreaches
  exact ⟨⟨⟨hsound, by simp⟩, _, .statement hmem.1, hroot⟩, hknown, hmem.2, hreaches⟩

/-- The host calls a function that it knows. -/
theorem Typed.call {raw : Program} (hp : raw.resolve = .ok program) (h : a.Typed program)
    {known args : List Value} {closure : Closure} (he : a.ended? = some known)
    (hc : .function closure ∈ known) (hargs : ∀ arg ∈ args, arg.isPlain ∨ arg ∈ known) :
    (Moment.after { a with rest := [], known := known }
      (Machine.call closure args none [] a.step.store)
      (Machine.callTrace closure args a.step.store)).Typed program := by
  have hlive := h.ended he
  have hcarries : Heap.Carries program ⟨a.regions, a.step.store⟩ [] := ⟨h.step.sound, by simp⟩
  have hb : Moment.Typed program { a with rest := [], known := known } :=
    ⟨h.step, hlive, by simp, h.reaches⟩
  refine hb.after (goes_call hp hcarries (hlive _ hc) fun arg harg => ?_)
  rcases hargs arg harg with hplain | hmem
  · exact Value.live_of_isPlain hplain
  · exact hlive arg hmem

/-- What a heap holds, it holds at the next moment too. -/
theorem Next.later (h : Next a b) :
    Heap.Later ⟨a.regions, a.step.store⟩ ⟨b.regions, b.step.store⟩ := by
  cases h with
  | @step m hm =>
    refine ⟨List.prefix_append _ _, ?_⟩
    rw [hm]
    exact (Machine.records_step m).grows
  | statement hd hrest =>
    refine ⟨List.prefix_refl _, ?_⟩
    rw [hd]
    exact .refl _
  | call => exact ⟨List.prefix_append _ _, Machine.records_call.grows⟩

theorem Right.next {raw : Program} (hp : raw.resolve = .ok program) (h : a.Right program)
    (hn : Next a b) : b.Right program := by
  have hroot := h.root.later hn.later
  cases hn with
  | step hs => exact ⟨h.toTyped.after (h.goes hp hs), hroot⟩
  | statement hs hr => exact ⟨h.toTyped.statement hs hr h.root, hroot⟩
  | call he hc hargs => exact ⟨h.toTyped.call hp he hc hargs, hroot⟩

end Moment

theorem Globals.mem_of_lookup_ofList {entries : List (String × Value)} {name : String}
    {value : Value} (h : (Globals.ofList entries).lookup name = some value) :
    (name, value) ∈ entries := by
  -- an entry of the table comes from the list, or was in the table it started with
  suffices hfold : ∀ globals : Globals,
      (entries.foldl (fun globals entry => Globals.insert globals entry.1 entry.2) globals).lookup
        name = some value → (name, value) ∈ entries ∨ globals.lookup name = some value by
    rcases hfold [] h with h | h
    · exact h
    · cases h
  clear h
  induction entries with
  | nil => exact fun globals h => .inr h
  | cons entry rest ih =>
    intro globals h
    rcases ih _ h with h | h
    · exact .inl (List.mem_cons_of_mem _ h)
    · rw [Store.lookup_insert] at h
      split at h
      · rename_i hname
        cases h
        exact .inl (by rw [hname]; exact List.mem_cons_self)
      · exact .inr h

theorem Moment.right_start {raw program : Program} {seeds : List (String × Value)}
    (hp : raw.resolve = .ok program) (hseeds : PlainSeeds seeds) :
    (Moment.start program seeds).Right program where
  step := by
    refine ⟨⟨rfl, fun cell value h => ?_⟩, trivial⟩
    rw [Store.read_openScope] at h
    cases cell with
    | slot id index slotClass => simp [Store.read, Store.seeded] at h
    | global name =>
      exact Value.live_of_isPlain (hseeds _ (Globals.mem_of_lookup_ofList h))
  known := by simp [Moment.start]
  rest := fun _ h => h
  root := by
    refine .root (Store.getElem?_openScope (Store.seeded seeds) program.shape none) rfl ?_ rfl
    rw [Scope.shape_ofShape]
    exact Program.fits_of_resolve hp
  reaches := by simp [Moment.start]

theorem Session.right {raw program : Program} {seeds : List (String × Value)} {a : Moment}
    (hp : raw.resolve = .ok program) (hseeds : PlainSeeds seeds)
    (h : Session program seeds a) : a.Right program := by
  induction h with
  | refl => exact Moment.right_start hp hseeds
  | tail _ hn ih => exact ih.next hp hn

theorem resolve_of_compile {source : String} {program : Program}
    (h : compile source = .ok program) : ∃ raw : Program, raw.resolve = .ok program := by
  simp only [compile, bind_eq_ok_iff] at h
  obtain ⟨tokens, -, raw, -, h⟩ := h
  refine ⟨raw, ?_⟩
  cases hr : raw.resolve with
  | ok found =>
    rw [hr, diagnose] at h
    cases h
    rfl
  | error e =>
    rw [hr, diagnose] at h
    cases h

/-- A use of a variable is addressed right: seen from its scope, the place is a slot of a scope
that was opened for the region which declares the variable, or a global name. -/
def Moment.Addresses (program : Program) (a : Moment) (access : Access) : Prop :=
  access.place ≠ .unresolved ∧
  ∃ chain, program.Mentions chain access.name access.place ∧
    Heap.Lineage ⟨a.regions, a.step.store⟩ access.scope chain ∧
    ∀ distance index slotClass, access.place = .slot distance index slotClass →
      ∃ target region scope, a.step.store.ancestor distance access.scope = some target ∧
        chain[distance]? = some region ∧ a.regions[target]? = some region ∧
        (access.name, slotClass, index) ∈ region.declared ∧
        a.step.store.scopes[target]? = some scope ∧ index < (scope.slots slotClass).size

/-- **Every use of a variable so far is addressed right.** -/
theorem Moment.Typed.addresses {raw program : Program} (hp : raw.resolve = .ok program) {a : Moment}
    (h : a.Typed program) {access : Access} (hmem : access ∈ a.accesses) :
    a.Addresses program access := by
  obtain ⟨chain, hm, hl⟩ := h.reaches access hmem
  have hw := hm.within hp
  refine ⟨fun h => ?_, chain, hm, hl, fun distance index slotClass h => ?_⟩
  · rw [h] at hw
    exact hw
  · rw [h] at hw
    exact hl.cell hw

theorem compile_ok_of_isOk {source : String} (h : (compile source).isOk = true) :
    ∃ program, compile source = .ok program := by
  cases hc : compile source with
  | ok program => exact ⟨program, rfl⟩
  | error e =>
    rw [hc] at h
    cases h

end SlotScript
