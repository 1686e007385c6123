import Mathlib.Data.List.Nodup
import SlotScript.Proofs.Machine.Address
import SlotScript.Proofs.Machine.Record

/-!
# What is still to be declared

A scope is opened for a region, and what is evaluated in the scope are the parts of that region's
text. The parts still to be evaluated are in the control and on the stack, and `Step.due` counts
how many of their declarations are for a given constant slot of a given scope.

Evaluating a declaration moves one from there to the record of assignments, and nothing else
assigns a constant (`Resolved.declares`). So a step takes no more than what was due (`pays_step`),
apart from parts that are evaluated again in the same scope (`Program.Repeats`): the condition and
the step of a loop, and the default of a parameter.

In a scope that was just opened, at most one declaration is due for every slot, because a region
gives every constant a slot of its own (`Region.Fits.tally_le_one`).
-/

namespace SlotScript

/-! ## Only declarations assign constants -/

/-- What the node assigns itself is no constant, unless it declares it. -/
def Node.Declares : Node → Prop
  | .assign _ var _ _ _ _ => ∀ distance index, var.place = .slot distance index .const →
      distance = 0 ∧ var.kind = .declare
  | .define _ binding _ _ _ _ => ∀ var ∈ binding, ∀ distance index,
      var.place ≠ .slot distance index .const
  | _ => True

theorem resolveTarget_ne_const {here after : Context} {outer : List Context} {target : String}
    {op : Option BinaryOp} {span : Span} {var : VarRef}
    (h : resolveTarget outer here target op span = .ok (var, after)) (distance index : Nat) :
    var.place ≠ .slot distance index .const := by
  unfold resolveTarget at h
  split at h
  · cases h
  · cases h
    simp
  · cases h
    simp
  · cases h
    intro hplace
    cases hplace

theorem Resolved.declares {inLoop : Bool} {chain : List Region} {node : Node}
    (h : Resolved inLoop chain node) : node.Declares := by
  obtain ⟨outer, here, raw, after, h, -⟩ := h
  cases resolution_of_resolve h with
  | assign _ ht =>
    exact fun distance index hplace => (resolveTarget_ne_const ht distance index hplace).elim
  | var => simp [Node.Declares, Context.declare]
  | const =>
    intro distance index hplace
    cases hplace
    exact ⟨rfl, rfl⟩
  | unnamed => simp [Node.Declares]
  | named => simp [Node.Declares, Context.declare]
  | _ => trivial

theorem Program.Occurs.declares {raw program : Program} (hp : raw.resolve = .ok program)
    {chain : List Region} {node : Node} (h : program.Occurs chain node) : node.Declares := by
  obtain ⟨inLoop, hr⟩ := h.resolved hp
  exact hr.declares

/-! ## Declarations for a slot -/

/-- Seen from inside the chain, the declaration stands where it is evaluated again in the same
scope: in the condition or the step of a loop, or in the default of a parameter. -/
inductive Program.Repeats (program : Program) : List Region → Declaration → Prop
  | whileCond {chain : List Region} {cond body : Node} {header bodyShape : Shape} {span : Span}
      {declaration : Declaration} :
      program.Occurs chain (.whileLoop cond body header bodyShape span) →
      declaration ∈ cond.declared →
      Repeats program (.ofHeader none (some cond) none body :: chain) declaration
  | forCond {chain : List Region} {init cond step : Option Node} {body : Node}
      {header bodyShape : Shape} {span : Span} {declaration : Declaration} :
      program.Occurs chain (.forLoop init cond step body header bodyShape span) →
      declaration ∈ declaredOption cond →
      Repeats program (.ofHeader init cond step body :: chain) declaration
  | forStep {chain : List Region} {init cond step : Option Node} {body : Node}
      {header bodyShape : Shape} {span : Span} {declaration : Declaration} :
      program.Occurs chain (.forLoop init cond step body header bodyShape span) →
      declaration ∈ declaredOption step →
      Repeats program (.ofHeader init cond step body :: chain) declaration
  | default {chain : List Region} {name : String} {binding : Option VarRef} {params : List Param}
      {body : Node} {frame : Shape} {span : Span} {declaration : Declaration} :
      program.Occurs chain (.define name binding params body frame span) →
      declaration ∈ declaredParams params → Repeats program chain declaration

/-- How many of the declarations are for the constant slot. -/
def tally (declared : List Declaration) (index : Nat) : Nat :=
  declared.countP (·.2 = (.const, index))

@[simp] theorem tally_nil (index : Nat) : tally [] index = 0 := rfl

@[simp] theorem tally_append (a b : List Declaration) (index : Nat) :
    tally (a ++ b) index = tally a index + tally b index :=
  List.countP_append

theorem exists_of_tally {declared : List Declaration} {index : Nat} (h : tally declared index ≠ 0) :
    ∃ name, (name, .const, index) ∈ declared := by
  obtain ⟨⟨name, rest⟩, hmem, hd⟩ := List.countP_pos_iff.1 (Nat.pos_of_ne_zero h)
  have hrest : rest = (.const, index) := of_decide_eq_true hd
  rw [hrest] at hmem
  exact ⟨name, hmem⟩

/-- A region declares no constant slot twice. -/
theorem Region.Fits.tally_le_one {region : Region} {shape : Shape} (h : region.Fits shape)
    (index : Nat) : tally region.declared index ≤ 1 := by
  have hcount : tally region.declared index =
      ((region.declared.filter (·.2.1 = .const)).map (·.2.2)).count index := by
    rw [tally, List.count, List.countP_map, List.countP_filter]
    congr 1
    funext d
    rw [Bool.eq_iff_iff]
    simp [Prod.ext_iff, and_comm]
  rw [hcount, h.slots .const, List.count_reverse]
  exact List.nodup_iff_count_le_one.1 List.nodup_range index

/-! ## What is due -/

section Due

variable (id : ScopeId) (index : Nat)

/-- How many of the declarations, made in a scope, are for the slot. -/
def dueIn (scope : ScopeId) (declared : List Declaration) : Nat :=
  if scope = id then tally declared index else 0

/-- How often the slot is declared in what waits yet, repeated parts apart. -/
def Waiting.due : Waiting → Nat
  | .left _ operand scope _ | .logicalLeft _ _ operand scope => dueIn id index scope operand.declared
  | .assign _ place _ scope _ => if scope = id ∧ place = .slot 0 index .const then 1 else 0
  | .callee _ args scope _ | .argument _ _ args scope _ => dueIn id index scope (declaredAll args)
  | .default closure frame _ _ _ _ => dueIn id index frame closure.body.declared
  | .block rest scope => dueIn id index scope (declaredAll rest)
  | _ => 0

/-- How often the slot is declared in a stack yet. -/
def dueAll : List Waiting → Nat
  | [] => 0
  | waiting :: rest => dueAll rest + waiting.due id index

/-- How often the slot is declared yet, repeated parts apart. -/
def Step.due : Step → Nat
  | .next ⟨.eval node scope, stack, _⟩ => dueIn id index scope node.declared + dueAll id index stack
  | .next ⟨.deliver _, stack, _⟩ => dueAll id index stack
  | .done _ _ | .failed _ _ => 0

end Due

/-- How many of the accesses assign the cell. -/
def assignments (store : Store) (cell : Cell) (accesses : List Access) : Nat :=
  accesses.countP (·.assignsTo store cell)

/-- The slot's declaration is one that is evaluated again in the scope. -/
def Repeated (program : Program) (heap : Heap) (id : ScopeId) (index : Nat) : Prop :=
  ∃ chain name, heap.Lineage id chain ∧ program.Repeats chain (name, .const, index)

/-- The step and its record take no more than what was due for the slot. -/
def Pays (program : Program) (heap : Heap) (id : ScopeId) (index limit : Nat) (step : Step)
    (trace : Trace) : Prop :=
  Repeated program ⟨heap.regions ++ trace.opened, step.store⟩ id index ∨
    step.due id index + assignments step.store (.slot id index .const) trace.accesses ≤ limit

section Slot

variable {program : Program} {heap : Heap} {id : ScopeId} {index : Nat}

theorem Heap.Lineage.lt_size {scope : ScopeId} {chain : List Region}
    (h : heap.Lineage scope chain) : scope < heap.store.scopes.size := by
  cases h with
  | root hs _ _ _ => exact (Array.getElem?_eq_some_iff.1 hs).1
  | child hs _ _ _ _ => exact (Array.getElem?_eq_some_iff.1 hs).1

theorem Repeated.later {after : Heap} (h : heap.Later after)
    (hr : Repeated program heap id index) : Repeated program after id index := by
  obtain ⟨chain, name, hl, hrep⟩ := hr
  exact ⟨chain, name, hl.later h, hrep⟩

theorem dueIn_of_ne {scope : ScopeId} (h : scope ≠ id) (declared : List Declaration) :
    dueIn id index scope declared = 0 :=
  if_neg h

theorem dueIn_append (scope : ScopeId) (a b : List Declaration) :
    dueIn id index scope (a ++ b) = dueIn id index scope a + dueIn id index scope b := by
  unfold dueIn
  split
  · exact tally_append a b index
  · rfl

theorem dueIn_nil (scope : ScopeId) : dueIn id index scope [] = 0 := by
  simp [dueIn]

/-- Nothing is due in a scope that is not open yet. -/
theorem dueIn_eq_zero {scope : ScopeId} {chain : List Region} (hl : heap.Lineage scope chain)
    (hid : heap.store.scopes.size ≤ id) (declared : List Declaration) :
    dueIn id index scope declared = 0 :=
  dueIn_of_ne (Nat.ne_of_lt (Nat.lt_of_lt_of_le hl.lt_size hid)) declared

theorem dueIn_declaredAll_eq_zero {scope : ScopeId} {nodes : List Node}
    (hn : ∀ node ∈ nodes, node.Ready program heap scope) (hid : heap.store.scopes.size ≤ id) :
    dueIn id index scope (declaredAll nodes) = 0 := by
  cases nodes with
  | nil => exact dueIn_nil scope
  | cons node rest =>
    obtain ⟨chain, -, hl⟩ := hn node List.mem_cons_self
    exact dueIn_eq_zero hl hid _

theorem Waiting.Ready.due_eq_zero {waiting : Waiting} (hw : waiting.Ready program heap)
    (hid : heap.store.scopes.size ≤ id) : waiting.due id index = 0 := by
  cases waiting with
  | left | logicalLeft =>
    obtain ⟨chain, -, hl⟩ := hw
    exact dueIn_eq_zero hl hid _
  | assign target place op scope span =>
    obtain ⟨chain, _, _, _, _, _, -, -, hl⟩ := hw
    have hne : scope ≠ id := Nat.ne_of_lt (Nat.lt_of_lt_of_le hl.lt_size hid)
    exact if_neg fun h => hne h.1
  | callee => exact dueIn_declaredAll_eq_zero hw hid
  | argument => exact dueIn_declaredAll_eq_zero hw.2.2 hid
  | default =>
    obtain ⟨param, -, chain, binding, before, -, -, hl, -⟩ := hw
    exact dueIn_eq_zero hl hid _
  | block => exact dueIn_declaredAll_eq_zero hw hid
  | _ => rfl

theorem Heap.Carries.dueAll_eq_zero {stack : List Waiting} (hc : heap.Carries program stack)
    (hid : heap.store.scopes.size ≤ id) : dueAll id index stack = 0 := by
  have hstack := hc.stack
  clear hc
  induction stack with
  | nil => rfl
  | cons waiting rest ih =>
    rw [List.forall_mem_cons] at hstack
    rw [dueAll, hstack.1.due_eq_zero hid, ih hstack.2]

end Slot

/-! ## One lemma for each function of the machine -/

section Steps

variable {program : Program} {heap : Heap} {stack : List Waiting} {id : ScopeId}
  {index limit : Nat}

theorem pays_eval {node : Node} {scope : ScopeId} {store : Store}
    (hd : dueIn id index scope node.declared + dueAll id index stack ≤ limit) :
    Pays program heap id index limit (.eval node scope stack store) {} :=
  .inr hd

theorem pays_value {value : Value} {store : Store} (hd : dueAll id index stack ≤ limit) :
    Pays program heap id index limit (.value value stack store) {} :=
  .inr hd

theorem pays_raise {fault : Fault} {span : Option Span} {store : Store} :
    Pays program heap id index limit (.raise fault span store) {} :=
  .inr (Nat.zero_le _)

theorem pays_result {result : Except Fault Value} {span : Span} {store : Store}
    (hd : dueAll id index stack ≤ limit) :
    Pays program heap id index limit (.result result span stack store) {} := by
  cases result with
  | ok value => exact pays_value hd
  | error fault => exact pays_raise

theorem Pays.openScope {shape : Shape} {parent : Option ScopeId} {region : Region} {step : Step}
    {trace : Trace} (h : Pays program (heap.openScope shape parent region) id index limit step trace) :
    Pays program heap id index limit step ⟨region :: trace.opened, trace.accesses⟩ := by
  unfold Pays at h ⊢
  rwa [Heap.openScope, List.append_assoc] at h

theorem Heap.openScope_fresh {shape : Shape} {parent : Option ScopeId} {region : Region}
    (hf : heap.store.scopes.size ≤ id → 1 ≤ limit) :
    (heap.openScope shape parent region).store.scopes.size ≤ id → 1 ≤ limit := by
  intro h
  rw [Heap.openScope, Store.size_openScope] at h
  exact hf (Nat.le_of_succ_le h)

/-- An access that cannot assign the slot costs nothing. -/
theorem Pays.cons {a : Access} {step : Step} {opened : List Region} {accesses : List Access}
    (ha : a.assignsTo step.store (.slot id index .const) = false)
    (h : Pays program heap id index limit step ⟨opened, accesses⟩) :
    Pays program heap id index limit step ⟨opened, a :: accesses⟩ := by
  rcases h with h | h
  · exact .inl h
  · refine .inr ?_
    rwa [assignments, List.countP_cons_of_neg (by simp [ha])]

/-- A constant's slot is assigned only at a constant's place. -/
theorem Access.place_of_assignsTo {access : Access} {store : Store}
    (h : access.assignsTo store (.slot id index .const) = true) :
    ∃ distance, access.place = .slot distance index .const ∧
      store.ancestor distance access.scope = some id := by
  obtain ⟨name, place, scope, assigns⟩ := access
  simp only [Access.assignsTo, Bool.and_eq_true, decide_eq_true_eq] at h
  obtain ⟨-, h⟩ := h
  cases Store.cell?_eq_some_iff.mp h with
  | @slot _ distance _ _ _ _ houtward _ _ => exact ⟨distance, rfl, Store.ancestor_eq_some_iff.mpr houtward⟩

theorem Access.not_assignsTo {access : Access} {store : Store}
    (h : ∀ distance index, access.place ≠ .slot distance index .const) :
    access.assignsTo store (.slot id index .const) = false := by
  rw [Bool.eq_false_iff]
  intro ha
  obtain ⟨distance, hplace, -⟩ := Access.place_of_assignsTo ha
  exact h distance index hplace

theorem assignments_target_le {name : String} {place : Place} {scope : ScopeId} {store : Store}
    (hplace : ∀ distance index, place = .slot distance index .const → distance = 0) :
    assignments store (.slot id index .const) [⟨name, place, scope, true⟩] ≤
      if scope = id ∧ place = .slot 0 index .const then 1 else 0 := by
  rw [assignments, List.countP_singleton]
  split
  · rename_i h
    obtain ⟨distance, hp, ha⟩ := Access.place_of_assignsTo h
    obtain rfl := hplace distance index hp
    exact Nat.le_of_eq (if_pos ⟨Option.some.inj ha, hp⟩).symm
  · exact Nat.zero_le _

theorem pays_writeVar {name : String} {place : Place} {value : Value} {scope : ScopeId}
    {span : Span} {store : Store}
    (hplace : ∀ distance index, place = .slot distance index .const → distance = 0)
    (hd : (if scope = id ∧ place = .slot 0 index .const then 1 else 0) + dueAll id index stack ≤
      limit) :
    Pays program heap id index limit (Machine.writeVar name place value scope span stack store)
      { accesses := [⟨name, place, scope, true⟩] } := by
  refine .inr ?_
  have ha : ∀ store, assignments store (.slot id index .const) [⟨name, place, scope, true⟩] ≤
      if scope = id ∧ place = .slot 0 index .const then 1 else 0 :=
    fun store => assignments_target_le hplace
  have hdue : (Machine.writeVar name place value scope span stack store).due id index ≤
      dueAll id index stack := by
    rw [Machine.writeVar]
    split
    · exact Nat.le_refl _
    · exact Nat.zero_le _
  exact Nat.le_trans (Nat.add_le_add hdue (ha _)) (by omega)

theorem pays_updateVar {name : String} {place : Place} {op : BinaryOp} {value : Value}
    {scope : ScopeId} {span : Span} {store : Store}
    (hplace : ∀ distance index, place = .slot distance index .const → distance = 0)
    (hd : (if scope = id ∧ place = .slot 0 index .const then 1 else 0) + dueAll id index stack ≤
      limit) :
    Pays program heap id index limit (Machine.updateVar name place op value scope span stack store)
      (Machine.updateTrace name place op value scope store) := by
  rw [Machine.updateVar, Machine.updateTrace]
  cases store.lookup scope place name with
  | error e => exact pays_raise.cons rfl
  | ok current =>
    simp only
    cases applyBinary current value op with
    | error fault => exact pays_raise.cons rfl
    | ok result => exact (pays_writeVar hplace hd).cons rfl

theorem pays_runBlock {last : Value} {statements : List Node} {scope : ScopeId} {store : Store}
    (hd : dueIn id index scope (declaredAll statements) + dueAll id index stack ≤ limit) :
    Pays program heap id index limit (Machine.runBlock last statements scope stack store) {} := by
  cases statements with
  | nil => exact pays_value (by omega)
  | cons node rest =>
    rw [declaredAll, dueIn_append] at hd
    refine pays_eval ?_
    show _ + (dueAll id index stack + dueIn id index scope (declaredAll rest)) ≤ limit
    omega

/-- A scope that was just opened has at most one declaration for every slot, and the others are
as they were. -/
theorem dueIn_new_le {declared : List Declaration} (hc : heap.Carries program stack)
    (ht : tally declared index ≤ 1) (hd : dueAll id index stack ≤ limit)
    (hf : heap.store.scopes.size ≤ id → 1 ≤ limit) :
    dueIn id index heap.store.scopes.size declared + dueAll id index stack ≤ limit := by
  by_cases hid : heap.store.scopes.size = id
  · have hle := Nat.le_of_eq hid
    rw [dueIn, if_pos hid, hc.dueAll_eq_zero hle]
    exact Nat.le_trans ht (hf hle)
  · rw [dueIn_of_ne hid]
    omega

theorem pays_openEval {node : Node} {region : Region} {shape : Shape} {parent : Option ScopeId}
    (hc : heap.Carries program stack) (ht : tally node.declared index ≤ 1)
    (hd : dueAll id index stack ≤ limit) (hf : heap.store.scopes.size ≤ id → 1 ≤ limit) :
    Pays program heap id index limit (.eval node heap.store.scopes.size stack
      (heap.store.openScope shape parent).2) ⟨[region], []⟩ :=
  .inr (dueIn_new_le hc ht hd hf)

theorem pays_takeBranch {test : Bool} {yes : Node} {no : Option Node} {yesShape noShape : Shape}
    {span : Span} {scope : ScopeId} (hc : heap.Carries program stack)
    (hb : (Waiting.branch span yes no yesShape noShape scope).Ready program heap)
    (hd : dueAll id index stack ≤ limit) (hf : heap.store.scopes.size ≤ id → 1 ≤ limit) :
    Pays program heap id index limit
      (Machine.takeBranch test yes no yesShape noShape scope stack heap.store)
      (Machine.takeBranchTrace test yes no) := by
  obtain ⟨chain, -, -, hyes, hno⟩ := hb
  cases test with
  | true => exact pays_openEval hc (hyes.tally_le_one index) hd hf
  | false =>
    cases no with
    | none => exact pays_value hd
    | some no => exact pays_openEval hc ((hno no rfl).2.tally_le_one index) hd hf

/-- A part that is evaluated again costs nothing, or the slot is a repeated one. -/
theorem pays_repeat {node : Node} {scope : ScopeId} {chain : List Region} {stack' : List Waiting}
    (hl : heap.Lineage scope chain)
    (hr : ∀ name, (name, .const, index) ∈ node.declared →
      program.Repeats chain (name, .const, index))
    (hd : dueAll id index stack' ≤ limit) :
    Pays program heap id index limit (.eval node scope stack' heap.store) {} := by
  by_cases hid : scope = id
  · by_cases ht : tally node.declared index = 0
    · refine pays_eval ?_
      rw [dueIn, if_pos hid, ht]
      omega
    · obtain ⟨name, hmem⟩ := exists_of_tally ht
      subst hid
      refine .inl ⟨chain, name, ?_, hr name hmem⟩
      show Heap.Lineage ⟨heap.regions ++ [], heap.store⟩ scope chain
      rwa [List.append_nil]
  · refine pays_eval ?_
    rw [dueIn_of_ne hid]
    omega

section Loops

variable {loop : Loop} {last : Value}

theorem Loop.Runs.repeats {init : Option Node} {node part : Node} {chain : List Region}
    (hr : loop.Runs init node) (ho : program.Occurs chain node)
    (hp : part ∈ loop.cond ∨ part ∈ loop.step) {declaration : Declaration}
    (hd : declaration ∈ part.declared) :
    program.Repeats (.ofHeader init loop.cond loop.step loop.body :: chain) declaration := by
  cases hr with
  | whileLoop =>
    rcases hp with hp | hp
    · cases hp
      exact .whileCond ho hd
    · cases hp
  | forLoop =>
    rcases hp with hp | hp
    · cases hp
      exact .forCond ho hd
    · cases hp
      exact .forStep ho hd

theorem pays_loopPart {part : Node} {waiting : Waiting} (hl : loop.Ready program heap)
    (hp : part ∈ loop.cond ∨ part ∈ loop.step) (hw : waiting.due id index = 0)
    (hd : dueAll id index stack ≤ limit) :
    Pays program heap id index limit (.eval part loop.header (waiting :: stack) heap.store) {} := by
  obtain ⟨chain, init, node, hruns, ho, hheader⟩ := hl
  refine pays_repeat hheader (fun name hmem => hruns.repeats ho hp hmem) ?_
  rw [dueAll, hw]
  omega

variable {raw : Program} (hp : raw.resolve = .ok program)

include hp

theorem pays_loopEnter (hc : heap.Carries program stack) (hl : loop.Ready program heap)
    (hv : last.Live program heap) (hd : dueAll id index stack ≤ limit)
    (hf : heap.store.scopes.size ≤ id → 1 ≤ limit) :
    Pays program heap id index limit (Machine.loopEnter loop last stack heap.store)
      ⟨[.ofBody loop.body], []⟩ := by
  have hpush : heap.Carries program (.loopBody loop last :: stack) := hc.push ⟨hl, hv⟩
  obtain ⟨chain, init, node, hruns, ho, -⟩ := hl
  exact pays_openEval hpush ((hruns.fits hp ho).tally_le_one index) hd hf

theorem pays_loopRound (hc : heap.Carries program stack) (hl : loop.Ready program heap)
    (hv : last.Live program heap) (hd : dueAll id index stack ≤ limit)
    (hf : heap.store.scopes.size ≤ id → 1 ≤ limit) :
    Pays program heap id index limit (Machine.loopRound loop last stack heap.store)
      (Machine.loopRoundTrace loop) := by
  rw [Machine.loopRound, Machine.loopRoundTrace]
  cases hcond : loop.cond with
  | none => exact pays_loopEnter hp hc hl hv hd hf
  | some cond => exact pays_loopPart hl (.inl hcond) rfl hd

theorem pays_loopNext (hc : heap.Carries program stack) (hl : loop.Ready program heap)
    (hv : last.Live program heap) (hd : dueAll id index stack ≤ limit)
    (hf : heap.store.scopes.size ≤ id → 1 ≤ limit) :
    Pays program heap id index limit (Machine.loopNext loop last stack heap.store)
      (Machine.loopNextTrace loop) := by
  rw [Machine.loopNext, Machine.loopNextTrace]
  cases hstep : loop.step with
  | none => exact pays_loopRound hp hc hl hv hd hf
  | some step => exact pays_loopPart hl (.inr hstep) rfl hd

end Loops

/-! ### Calls -/

theorem Closure.Calls.repeats {closure : Closure} {frame : ScopeId} {slot : Nat} {param : Param}
    {rest : List Param} (h : closure.Calls program heap frame slot (param :: rest)) {value : Node}
    (hv : param.default = some value) : ∃ chain, heap.Lineage closure.captured chain ∧
      ∀ declaration ∈ value.declared, program.Repeats chain declaration := by
  obtain ⟨chain, binding, before, ho, hl, -, hparams, -⟩ := h
  refine ⟨chain, hl, fun declaration hmem => .default ho ?_⟩
  rw [hparams]
  clear hparams ho
  induction before with
  | nil =>
    obtain ⟨name, default, span⟩ := param
    cases hv
    exact List.mem_append_right _ hmem
  | cons first before ih =>
    obtain ⟨name, default, span⟩ := first
    exact List.mem_append_left _ ih

variable {raw : Program} (hp : raw.resolve = .ok program)

include hp

theorem pays_bindParams {closure : Closure} {frame : ScopeId} (site : Option Span) {slot : Nat}
    {params : List Param} {args : List Value}
    (hcalls : closure.Calls program heap frame slot params)
    (hd : dueIn id index frame closure.body.declared + dueAll id index stack ≤ limit) :
    Pays program heap id index limit
      (Machine.bindParams closure frame site stack slot params args heap.store)
      { accesses := paramAccesses frame slot params args } := by
  induction params generalizing heap slot args with
  | nil =>
    simp only [Machine.bindParams, paramAccesses]
    exact pays_eval hd
  | cons param rest ih =>
    cases args with
    | nil =>
      simp only [Machine.bindParams, paramAccesses]
      cases hdefault : param.default with
      | none => exact pays_raise
      | some value =>
        obtain ⟨chain, hl, hr⟩ := hcalls.repeats hdefault
        refine pays_repeat hl (fun name hmem => hr _ hmem) ?_
        show dueAll id index stack + dueIn id index frame closure.body.declared ≤ limit
        omega
    | cons arg args =>
      obtain ⟨cell, hcell⟩ := hcalls.reaches.cell? hp
      have hnext := hcalls.next.later (heap.later_write cell arg)
      simp only [Machine.bindParams, paramAccesses, hcell]
      exact Pays.cons (Access.not_assignsTo (by simp)) (ih hnext)

theorem pays_call {closure : Closure} {args : List Value} {site : Option Span}
    (hc : heap.Carries program stack) (hlive : closure.Live program heap)
    (hd : dueAll id index stack ≤ limit) (hf : heap.store.scopes.size ≤ id → 1 ≤ limit) :
    Pays program heap id index limit (Machine.call closure args site stack heap.store)
      (Machine.callTrace closure args heap.store) := by
  rw [Machine.call, Machine.callTrace]
  split
  · exact pays_raise
  · obtain ⟨chain, binding, ho, hl⟩ := hlive
    have hlater := heap.later_openScope closure.frame (some closure.captured) closure.region
    have hfits : closure.region.Fits closure.frame := (ho.settled hp).2
    have ht : tally closure.body.declared index ≤ 1 := by
      have := hfits.tally_le_one index
      rw [Closure.region, Region.ofFunction, tally_append] at this
      omega
    exact (pays_bindParams hp site
      ⟨chain, binding, [], ho, hl.later hlater, hc.sound.lineage_openScope hl hfits, rfl, rfl⟩
      (dueIn_new_le hc ht hd hf)).openScope

theorem pays_callArgs {closure : Closure} {done : List Value} {args : List Node} {scope : ScopeId}
    {span : Span} (hc : heap.Carries program stack) (hlive : closure.Live program heap)
    (hd : dueIn id index scope (declaredAll args) + dueAll id index stack ≤ limit)
    (hf : heap.store.scopes.size ≤ id → 1 ≤ limit) :
    Pays program heap id index limit
      (Machine.callArgs closure done args scope span stack heap.store)
      (Machine.callArgsTrace closure done args heap.store) := by
  cases args with
  | nil => exact pays_call hp hc hlive (by omega) hf
  | cons arg rest =>
    rw [declaredAll, dueIn_append] at hd
    refine pays_eval ?_
    show _ + (dueAll id index stack + dueIn id index scope (declaredAll rest)) ≤ limit
    omega

theorem pays_define {name : String} {binding : Option VarRef} {params : List Param} {body : Node}
    {frame : Shape} {scope : ScopeId} {span : Span}
    (hn : (Node.define name binding params body frame span).Ready program heap scope)
    (hd : dueAll id index stack ≤ limit) :
    Pays program heap id index limit
      (Machine.define name binding params body frame scope span stack heap.store)
      (Machine.defineTrace name binding scope) := by
  cases binding with
  | none => exact pays_value hd
  | some var =>
    obtain ⟨chain, ho, -⟩ := hn
    have hvar := ho.declares hp var rfl
    refine Pays.cons (a := ⟨name, var.place, scope, true⟩) (Access.not_assignsTo hvar) ?_
    simp only [Machine.define]
    split
    · exact pays_raise
    · split
      · exact pays_value hd
      · exact pays_value hd

theorem pays_start {node : Node} {scope : ScopeId} (hc : heap.Carries program stack)
    (hn : node.Ready program heap scope)
    (hd : dueIn id index scope node.declared + dueAll id index stack ≤ limit)
    (hf : heap.store.scopes.size ≤ id → 1 ≤ limit) :
    Pays program heap id index limit (Machine.start node scope stack heap.store)
      (Machine.startTrace node scope) := by
  have hrest : dueAll id index stack ≤ limit := by omega
  cases node with
  | int | float | bool | str | null => exact pays_value hrest
  | ident name var span =>
    refine Pays.cons (a := ⟨name, var.place, scope, false⟩) rfl ?_
    rw [Machine.start, Machine.readVar]
    split
    · exact pays_value hrest
    · exact pays_raise
  | unary op operand span => exact pays_eval hd
  | binary op left right span =>
    rw [Node.declared, dueIn_append] at hd
    have hd' : dueIn id index scope left.declared +
        (dueAll id index stack + dueIn id index scope right.declared) ≤ limit := by omega
    rw [Machine.start]
    split
    · exact pays_eval hd'
    · exact pays_eval hd'
  | assign target var decl op value span =>
    refine pays_eval ?_
    show _ + (dueAll id index stack +
      if scope = id ∧ var.place = .slot 0 index .const then 1 else 0) ≤ limit
    obtain ⟨chain, ho, -⟩ := hn
    have hvar : (if scope = id ∧ var.place = .slot 0 index .const then 1 else 0) ≤
        dueIn id index scope (var.declared target) := by
      split
      · rename_i h
        obtain ⟨hid, hplace⟩ := h
        obtain ⟨-, hkind⟩ := ho.declares hp 0 index hplace
        obtain ⟨kind, place⟩ := var
        cases hkind
        cases hplace
        rw [dueIn, if_pos hid]
        simp [VarRef.declared, tally]
      · exact Nat.zero_le _
    cases decl <;> rw [Node.declared, dueIn_append] at hd <;> omega
  | branch cond yes no yesShape noShape span => exact pays_eval hd
  | whileLoop cond body header bodyShape span =>
    obtain ⟨chain, ho, hl⟩ := hn
    have hready := Loop.ready_openScope .whileLoop hc.sound hl ho (ho.settled hp).1 rfl
    have hopened := hc.openScope header (some scope) (.ofHeader none (some cond) none body)
    exact (pays_loopRound hp hopened hready Value.live_null hrest (Heap.openScope_fresh hf)).openScope
  | forLoop init cond step body header bodyShape span =>
    obtain ⟨chain, ho, hl⟩ := hn
    have hfits := (ho.settled hp).1
    have hready := Loop.ready_openScope .forLoop hc.sound hl ho hfits rfl
    have hopened := hc.openScope header (some scope) (.ofHeader init cond step body)
    cases init with
    | some init =>
      have ht : tally init.declared index ≤ 1 := by
        have := hfits.tally_le_one index
        simp only [Region.ofHeader, declaredOption, tally_append] at this
        omega
      have hinit : dueIn id index heap.store.scopes.size init.declared +
          dueAll id index stack ≤ limit := dueIn_new_le hc ht hrest hf
      exact .inr hinit
    | none =>
      have hround := pays_loopRound hp hopened hready Value.live_null hrest
        (Heap.openScope_fresh hf)
      cases cond <;> exact hround.openScope
  | define name binding params body frame span => exact pays_define hp hn hrest
  | call callee args span =>
    rw [Node.declared, dueIn_append] at hd
    refine pays_eval ?_
    show _ + (dueAll id index stack + dueIn id index scope (declaredAll args)) ≤ limit
    omega
  | block body span => exact pays_runBlock hd
  | breakLoop | continueLoop => exact .inr hrest
  | ret value span =>
    cases value with
    | none => exact .inr hrest
    | some value => exact pays_eval hd

theorem pays_resume {waiting : Waiting} {value : Value} (hc : heap.Carries program stack)
    (hw : waiting.Ready program heap) (hv : value.Live program heap)
    (hd : waiting.due id index + dueAll id index stack ≤ limit)
    (hf : heap.store.scopes.size ≤ id → 1 ≤ limit) :
    Pays program heap id index limit (Machine.resume waiting value stack heap.store)
      (Machine.resumeTrace waiting value heap.store) := by
  have hrest : dueAll id index stack ≤ limit := by omega
  cases waiting with
  | unary op span => exact pays_result hrest
  | left op right scope span => exact pays_eval hd
  | right op left span => exact pays_result hrest
  | logicalLeft op leftSpan right scope =>
    cases value with
    | bool test =>
      simp only [Machine.resume, Machine.withTruth, Machine.resumeTrace]
      split
      · exact pays_value hrest
      · exact pays_eval hd
    | _ => exact pays_raise
  | logicalRight rightSpan =>
    cases value with
    | bool test => exact pays_value hrest
    | _ => exact pays_raise
  | assign target place op scope span =>
    obtain ⟨chain, var, decl, _, node, _, ho, rfl, -⟩ := hw
    have hplace : ∀ distance index, var.place = .slot distance index .const → distance = 0 :=
      fun distance index h => (ho.declares hp distance index h).1
    cases op with
    | none => exact pays_writeVar hplace hd
    | some op => exact pays_updateVar hplace hd
  | branch condSpan yes no yesShape noShape scope =>
    cases value with
    | bool test => exact pays_takeBranch hc hw hrest hf
    | _ => exact pays_raise
  | loopInit loop => exact pays_loopRound hp hc hw Value.live_null hrest hf
  | loopCond loop last condSpan =>
    cases value with
    | bool test =>
      cases test with
      | true => exact pays_loopEnter hp hc hw.1 hw.2 hrest hf
      | false => exact pays_value hrest
    | _ => exact pays_raise
  | loopBody loop last => exact pays_loopNext hp hc hw.1 hv hrest hf
  | loopStep loop last => exact pays_loopRound hp hc hw.1 hw.2 hrest hf
  | callee calleeSpan args scope span =>
    cases value with
    | function closure => exact pays_callArgs hp hc hv hd hf
    | _ => exact pays_raise
  | argument closure done rest scope span => exact pays_callArgs hp hc hw.1 hd hf
  | default closure frame slot name rest site =>
    obtain ⟨param, rfl, hcalls⟩ := hw
    obtain ⟨cell, hcell⟩ := hcalls.reaches.cell? hp
    have hnext := hcalls.next.later (heap.later_write cell value)
    simp only [Machine.resume, Machine.resumeTrace, hcell]
    refine Pays.cons (Access.not_assignsTo (by simp)) ?_
    rw [← paramAccesses_nil frame (slot + 1) rest]
    exact pays_bindParams hp site hnext hd
  | body site => exact pays_value hrest
  | block rest scope => exact pays_runBlock hd
  | ret => exact .inr hrest

theorem pays_unwind {waiting : Waiting} {flow : Flow} (hc : heap.Carries program stack)
    (hw : waiting.Ready program heap) (hv : flow.Live program heap)
    (hd : waiting.due id index + dueAll id index stack ≤ limit)
    (hf : heap.store.scopes.size ≤ id → 1 ≤ limit) :
    Pays program heap id index limit (Machine.unwind waiting flow stack heap.store)
      (Machine.unwindTrace waiting flow heap.store) := by
  have hrest : dueAll id index stack ≤ limit := by omega
  cases waiting with
  | loopBody loop last =>
    cases flow with
    | breakLoop => exact pays_value hrest
    | continueLoop => exact pays_loopNext hp hc hw.1 hw.2 hrest hf
    | normal | ret => exact .inr hrest
  | body site =>
    cases flow with
    | ret value => exact pays_value hrest
    | breakLoop | continueLoop => exact pays_raise
    | normal => exact .inr hrest
  | default closure frame slot name rest site =>
    cases flow with
    | ret value =>
      rw [Machine.unwind, Machine.unwindTrace]
      exact pays_resume hp hc hw hv hd hf
    | breakLoop | continueLoop => exact pays_raise
    | normal => exact .inr hrest
  | _ => exact .inr hrest

/-- **A step takes no more than what was due.** -/
theorem pays_step {m : Machine} {regions : List Region}
    (hr : (Step.next m).Right program regions) (hd : (Step.next m).due id index ≤ limit)
    (hf : m.store.scopes.size ≤ id → 1 ≤ limit) :
    Pays program ⟨regions, m.store⟩ id index limit m.step m.trace := by
  obtain ⟨control, stack, store⟩ := m
  cases control with
  | eval node scope => exact pays_start hp hr.1 hr.2 hd hf
  | deliver flow =>
    obtain ⟨hc, hflow⟩ := hr
    cases stack with
    | nil => exact .inr (Nat.zero_le _)
    | cons waiting stack =>
      have hw := hc.stack waiting List.mem_cons_self
      have hrest : Heap.Carries program ⟨regions, store⟩ stack :=
        ⟨hc.sound, fun w hmem => hc.stack w (List.mem_cons_of_mem _ hmem)⟩
      have hd' : waiting.due id index + dueAll id index stack ≤ limit := by
        have hd : dueAll id index stack + waiting.due id index ≤ limit := hd
        omega
      cases flow with
      | normal value => exact pays_resume hp hrest hw hflow hd' hf
      | breakLoop | continueLoop | ret => exact pays_unwind hp hrest hw hflow hd' hf

end Steps

end SlotScript
