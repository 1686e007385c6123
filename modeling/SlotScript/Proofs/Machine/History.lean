import Mathlib
import SlotScript.Proofs.Machine.Globals

/-!
# Histories: a program that is run again

A host may run a program more than once, and hand on what one run has given it to the next, as a global
name or as an argument. Plain values mean the same in every run. A function does not: it keeps to the scopes
of the run that made it, and finds global names in the table of that run, whoever calls it.

So all runs share one store of scopes, and every run has a table of its own. A `Stage` is a moment with the
tables, and a step goes with the table of the run whose scope it stands in (`Store.Outermost`). `Stage.Next`
is one step of the machine, the next statement of the program, a call by the host, or another run of the
program, whose global names are plain values and functions that earlier runs have given. There are no
functions of other programs: a function holds the pieces of its definition as parts of the program that owns
them, and this has to be the program that runs whenever it is called.

**Theorem (`History.address_agrees`).** However often a program that compiles is run, every use of a variable
goes out from a scope whose chain of links was opened for exactly the regions around that use in the program.
So the scope it arrives at was opened for the region that declares the variable, and has the slot.

A table is no part of the typing of the heap but for its values, so that the machine may be given another one
between two steps (`Moment.Typed.withTable`). A session is a history of one run (`Session.history`), as the
first scope is the only one without a scope around it.
-/

namespace SlotScript

/-! ## The run that a scope belongs to -/

/-- The second scope is the outermost one around the first: the program's scope of its run. -/
def Store.Outermost (store : Store) (id root : ScopeId) : Prop :=
  ∃ distance scope, store.Outward distance id root ∧ store.scopes[root]? = some scope ∧
    scope.parent = none

/-- The lineage of a scope ends with the outermost scope around it. -/
theorem Heap.Lineage.outermost {heap : Heap} {id : ScopeId} {chain : List Region}
    (h : heap.Lineage id chain) :
    ∃ root, heap.store.Outermost id root ∧ heap.regions[root]? = chain.getLast? := by
  induction h with
  | @root id scope region hs hr _ hp => exact ⟨id, ⟨0, scope, .here, hs, hp⟩, hr⟩
  | @child id parent scope region chain hs _ _ hp hl ih =>
    obtain ⟨root, ⟨distance, outer, hout, hroot⟩, hr⟩ := ih
    refine ⟨root, ⟨distance + 1, outer, .next hs hp hout, hroot⟩, ?_⟩
    have hne : chain ≠ [] := by cases hl <;> exact List.cons_ne_nil _ _
    rw [hr, List.getLast?_cons_of_ne_nil hne]

/-- Every node of a program stands inside the region of the program. -/
theorem Program.Occurs.getLast? {program : Program} {chain : List Region} {node : Node}
    (h : program.Occurs chain node) : chain.getLast? = some (.ofProgram program) := by
  induction h with
  | statement => rfl
  | part _ _ ih => rw [List.getLast?_append, ih, Option.some_or]

/-- The scope that a step sees global names from, if it may use any: it evaluates a node there, or carries out
an assignment that waited there. -/
def Machine.viewpoint? (m : Machine) : Option ScopeId :=
  match m.control, m.stack with
  | .eval _ scope, _ => some scope
  | .deliver _, .assign _ _ _ scope _ :: _ => some scope
  | .deliver _, _ => none

theorem Step.Right.viewpoint {program : Program} {regions : List Region} {m : Machine}
    (h : (Step.next m).Right program regions) {scope : ScopeId} (hscope : m.viewpoint? = some scope) :
    ∃ root, m.store.Outermost scope root ∧ regions[root]? = some (.ofProgram program) := by
  -- what is evaluated or waits in the scope stands inside the lineage of the scope
  obtain ⟨chain, node, hoccurs, hlineage⟩ : ∃ chain node, program.Occurs chain node ∧
      Heap.Lineage ⟨regions, m.store⟩ scope chain := by
    obtain ⟨control, stack, store⟩ := m
    cases control with
    | eval node scope =>
      cases hscope
      obtain ⟨chain, hoccurs, hlineage⟩ := h.2
      exact ⟨chain, node, hoccurs, hlineage⟩
    | deliver flow =>
      cases stack with
      | nil => cases hscope
      | cons waiting stack =>
        have hready := h.1.stack waiting List.mem_cons_self
        cases waiting with
        | assign =>
          cases hscope
          obtain ⟨chain, var, decl, op, value, span, hoccurs, -, hlineage⟩ := hready
          exact ⟨chain, _, hoccurs, hlineage⟩
        | _ => cases hscope
  obtain ⟨root, houtermost, hregion⟩ := hlineage.outermost
  exact ⟨root, houtermost, hregion.trans hoccurs.getLast?⟩

/-! ## Another table -/

/-- The machine with another table of global names. -/
def Machine.withTable (m : Machine) (globals : Globals) : Machine :=
  { m with store := { m.store with globals := globals } }

/-- Everything in the table is a value of the heap. -/
def Globals.Live (program : Program) (heap : Heap) (globals : Globals) : Prop :=
  ∀ name value, globals.lookup name = some value → value.Live program heap

section Table

variable {program : Program}

theorem Globals.Live.later {heap after : Heap} {globals : Globals} (h : heap.Later after)
    (hg : globals.Live program heap) : globals.Live program after :=
  fun name value hlookup => (hg name value hlookup).later h

/-- Tables that hold values of the heap, one of which is replaced by such a table. -/
theorem Globals.live_update {heap : Heap} {tables : ScopeId → Globals} {root : ScopeId}
    {globals : Globals} (hg : globals.Live program heap)
    (h : ∀ other, (tables other).Live program heap) (other : ScopeId) :
    (Function.update tables root globals other).Live program heap :=
  (Function.forall_update_iff tables fun _ globals => globals.Live program heap).mpr
    ⟨hg, fun other _ => h other⟩ other

/-- The heap with another table. -/
def Heap.withTable (heap : Heap) (globals : Globals) : Heap :=
  ⟨heap.regions, { heap.store with globals := globals }⟩

theorem Heap.later_withTable (heap : Heap) (globals : Globals) :
    heap.Later (heap.withTable globals) :=
  ⟨List.prefix_refl _, .refl heap.store⟩

theorem Heap.Sound.withTable {heap : Heap} {globals : Globals} (h : heap.Sound program)
    (hg : globals.Live program heap) : (heap.withTable globals).Sound program where
  size := h.size
  values cell value hread := by
    refine Value.Live.later (heap.later_withTable globals) ?_
    cases cell with
    | slot id index slotClass => exact h.values (.slot id index slotClass) value hread
    | global name => exact hg name value hread

theorem Step.Right.withTable {m : Machine} {regions : List Region} {globals : Globals}
    (h : (Step.next m).Right program regions) (hg : globals.Live program ⟨regions, m.store⟩) :
    (Step.next (m.withTable globals)).Right program regions := by
  have hlater := Heap.later_withTable ⟨regions, m.store⟩ globals
  have hsound := Heap.Sound.withTable h.sound hg
  obtain ⟨control, stack, store⟩ := m
  cases control with
  | eval node scope => exact ⟨h.1.later hlater hsound, h.2.later hlater⟩
  | deliver flow =>
    refine ⟨h.1.later hlater hsound, ?_⟩
    cases flow with
    | normal value | ret value => exact Value.Live.later hlater h.2
    | breakLoop | continueLoop => trivial

/-- The machine may be given another table. -/
theorem Moment.Typed.withTable {a : Moment} {m : Machine} {globals : Globals} (h : a.Typed program)
    (hs : a.step = .next m) (hg : globals.Live program ⟨a.regions, m.store⟩) :
    Moment.Typed program { a with step := .next (m.withTable globals) } := by
  have hlater := Heap.later_withTable ⟨a.regions, m.store⟩ globals
  have hstep := h.step
  have hknown := h.known
  have hreaches := h.reaches
  rw [hs] at hstep hknown hreaches
  exact ⟨hstep.withTable hg, fun v hv => (hknown v hv).later hlater, h.rest,
    fun access hmem => (hreaches access hmem).later hlater⟩

end Table

/-! ## Stages -/

/-- A moment of a history. The table in the store is the one that was used last. -/
structure Stage extends Moment where
  /-- The program's scope of the run that the host has started last. -/
  root : ScopeId
  /-- The tables of global names, each told by the program's scope of its run. -/
  tables : ScopeId → Globals

namespace Stage

/-- The program is about to run for the first time. -/
def first (program : Program) (seeds : List (String × Value)) : Stage :=
  { Moment.start program seeds with root := 0, tables := fun _ => Globals.ofList seeds }

/-- The program is about to run again, with the given global names. -/
def again (s : Stage) (program : Program) (known : List Value) (seeds : List (String × Value)) :
    Stage where
  step := .done (.normal .null)
    ({ s.step.store with globals := Globals.ofList seeds }.openScope program.shape none).2
  rest := program.body
  known := known
  regions := s.regions ++ [.ofProgram program]
  accesses := s.accesses
  root := s.step.store.scopes.size
  tables := Function.update s.tables s.step.store.scopes.size (Globals.ofList seeds)

/-- The machine takes a step with the table of a run. -/
def through (s : Stage) (m : Machine) (root : ScopeId) : Stage :=
  let m := m.withTable (s.tables root)
  { s with
    toMoment := s.after m.step m.trace
    tables := Function.update s.tables root m.step.store.globals }

theorem tables_through (s : Stage) (m : Machine) (root : ScopeId) : (s.through m root).tables =
    Function.update s.tables root (s.through m root).step.store.globals := rfl

/-- What can come next. -/
inductive Next (program : Program) : Stage → Stage → Prop
  /-- The machine takes a step with the table of the run that its scope belongs to. -/
  | step {s : Stage} {m : Machine} {root : ScopeId} : s.step = .next m →
      (∀ scope ∈ m.viewpoint?, m.store.Outermost scope root) → Next program s (s.through m root)
  /-- The next statement of the program starts. -/
  | statement {s : Stage} {value : Value} {store : Store} {node : Node} {rest : List Node} :
      s.step = .done (.normal value) store → s.rest = node :: rest →
      Next program s { s with step := .next ⟨.eval node s.root, [], store⟩, rest := rest }
  /-- The host calls a function. -/
  | call {s : Stage} {known args : List Value} {closure : Closure} :
      s.ended? = some known → .function closure ∈ known →
      (∀ arg ∈ args, arg.isPlain ∨ arg ∈ known) →
      Next program s { s with
        toMoment := Moment.after { s.toMoment with rest := [], known := known }
          (Machine.call closure args none [] s.step.store)
          (Machine.callTrace closure args s.step.store) }
  /-- The host runs the program again. -/
  | again {s : Stage} {known : List Value} {seeds : List (String × Value)} :
      s.ended? = some known → (∀ seed ∈ seeds, seed.2.isPlain ∨ seed.2 ∈ known) →
      Next program s (s.again program known seeds)

end Stage

/-- A stage of a host that runs the program any number of times. When it runs for the first time there are no
functions to give it yet. -/
inductive History (program : Program) : Stage → Prop
  | first {seeds : List (String × Value)} : PlainSeeds seeds → History program (.first program seeds)
  | next {s t : Stage} : History program s → s.Next program t → History program t

/-! ## Stages are right -/

/-- The stage is right: it is typed, the program's scope was opened for the program, and all tables hold
values of the heap. -/
structure Stage.Right (program : Program) (s : Stage) : Prop extends s.toMoment.Typed program where
  root : Heap.Lineage ⟨s.regions, s.step.store⟩ s.root [.ofProgram program]
  tables : ∀ root, (s.tables root).Live program ⟨s.regions, s.step.store⟩

namespace Stage

variable {raw program : Program} {s t : Stage}

theorem right_first {seeds : List (String × Value)} (hp : raw.resolve = .ok program)
    (hseeds : PlainSeeds seeds) : (first program seeds).Right program where
  toTyped := (Moment.right_start hp hseeds).toTyped
  root := (Moment.right_start hp hseeds).root
  tables _ _ _ hlookup := Value.live_of_isPlain (hseeds _ (Globals.mem_of_lookup_ofList hlookup))

/-- A step leaves a table that holds values of the heap, and the other tables alone. -/
theorem Right.through (hp : raw.resolve = .ok program) (h : s.Right program) {m : Machine}
    (hs : s.step = .next m) (root : ScopeId) : (s.through m root).Right program := by
  have htables := h.tables
  rw [hs] at htables
  have htyped := h.toTyped.withTable hs (htables root)
  have hgoes := htyped.goes hp rfl
  have hlater : Heap.Later ⟨s.regions, s.step.store⟩
      ⟨(s.through m root).regions, (s.through m root).step.store⟩ := by
    rw [hs]
    exact ⟨List.prefix_append _ _, hgoes.grows⟩
  have hafter : (s.through m root).toMoment.Typed program := htyped.after hgoes
  refine ⟨hafter, h.root.later hlater, ?_⟩
  rw [tables_through]
  exact Globals.live_update (fun name => hafter.step.sound.values (.global name))
    fun other => (h.tables other).later hlater

/-- A run that starts has a scope of its own, and a table of values of the heap. -/
theorem Right.again (hp : raw.resolve = .ok program) (h : s.Right program) {known : List Value}
    {seeds : List (String × Value)} (he : s.ended? = some known)
    (hseeds : ∀ seed ∈ seeds, seed.2.isPlain ∨ seed.2 ∈ known) :
    (s.again program known seeds).Right program := by
  have hknown := h.toTyped.ended he
  have hlive : (Globals.ofList seeds).Live program ⟨s.regions, s.step.store⟩ := by
    intro name value hlookup
    rcases hseeds _ (Globals.mem_of_lookup_ofList hlookup) with hplain | hmem
    · exact Value.live_of_isPlain hplain
    · exact hknown _ hmem
  let heap : Heap := ⟨s.regions, s.step.store⟩
  have hsound : (heap.withTable (Globals.ofList seeds)).Sound program := h.step.sound.withTable hlive
  have hlater : heap.Later
      ((heap.withTable (Globals.ofList seeds)).openScope program.shape none (.ofProgram program)) :=
    ⟨List.prefix_append _ _, Store.grows_openScope { s.step.store with globals := _ } _ _⟩
  refine ⟨⟨⟨hsound.openScope _ _ _, trivial⟩, fun v hv => (hknown v hv).later hlater, fun _ h => h,
    fun access hmem => (h.reaches access hmem).later hlater⟩, ?_, ?_⟩
  · refine .root (Store.getElem?_openScope { s.step.store with globals := _ } program.shape none) ?_ ?_ rfl
    · show (s.regions ++ [Region.ofProgram program])[s.step.store.scopes.size]? = _
      rw [← h.step.sound.size, List.getElem?_concat_length]
    · rw [Scope.shape_ofShape]
      exact Program.fits_of_resolve hp
  · exact Globals.live_update (hlive.later hlater) fun other => (h.tables other).later hlater

theorem Right.next (hp : raw.resolve = .ok program) (h : s.Right program) (hn : s.Next program t) :
    t.Right program := by
  cases hn with
  | @step m root hs _ => exact h.through hp hs root
  | statement hs hr =>
    have hroot := h.root
    have htables := h.tables
    rw [hs] at hroot htables
    exact ⟨h.toTyped.statement hs hr h.root, hroot, htables⟩
  | call he hc hargs =>
    have hlater := (Moment.Next.call he hc hargs).later
    exact ⟨h.toTyped.call hp he hc hargs, h.root.later hlater,
      fun root => (h.tables root).later hlater⟩
  | again he hseeds => exact h.again hp he hseeds

end Stage

theorem History.right {raw program : Program} {s : Stage} (hp : raw.resolve = .ok program)
    (h : History program s) : s.Right program := by
  induction h with
  | first hseeds => exact Stage.right_first hp hseeds
  | next _ hn ih => exact ih.next hp hn

/-! ## A single run -/

/-- The program has been run once, in the first scope, and the store has the table of this run. -/
structure Stage.Lone (s : Stage) : Prop where
  root : s.root = 0
  table : s.tables 0 = s.step.store.globals

section Lone

variable {raw program : Program} {seeds : List (String × Value)} {s : Stage} {a b : Moment}

/-- The scopes of a single run all belong to the first one. -/
theorem Session.outermost (hp : raw.resolve = .ok program) (hseeds : PlainSeeds seeds)
    (h : Session program seeds a) {m : Machine} (hs : a.step = .next m) {scope : ScopeId}
    (hscope : m.viewpoint? = some scope) : m.store.Outermost scope 0 := by
  have hright := (h.right hp hseeds).step
  rw [hs] at hright
  obtain ⟨root, houtermost, hregion⟩ := hright.viewpoint hscope
  obtain ⟨inner, hregions, hinner⟩ := (h.local hp hseeds).regions
  rw [hregions] at hregion
  cases root with
  | zero => exact houtermost
  | succ root => exact absurd rfl (hinner _ (List.mem_of_getElem? hregion))

/-- A single run goes on in a history as it does in a session. -/
theorem Stage.Lone.lift (hp : raw.resolve = .ok program) (hseeds : PlainSeeds seeds)
    (ha : Session program seeds s.toMoment) (h : s.Lone) (hn : s.toMoment.Next b) :
    ∃ t, s.Next program t ∧ t.toMoment = b ∧ t.Lone := by
  cases hn with
  | @step m hs =>
    have hsame : m.withTable (s.tables 0) = m := by
      rw [h.table, hs]
      rfl
    have houtermost : ∀ scope ∈ m.viewpoint?, m.store.Outermost scope 0 :=
      fun scope hscope => ha.outermost hp hseeds hs hscope
    refine ⟨s.through m 0, .step hs houtermost, ?_, h.root, ?_⟩
    · rw [Stage.through, hsame]
    · rw [Stage.tables_through, Function.update_self]
  | statement hs hr =>
    refine ⟨_, .statement hs hr, by rw [h.root], h.root, ?_⟩
    rw [h.table, hs]
    rfl
  | @call known args closure he hc hargs =>
    have hcall : (Machine.call closure args none [] s.step.store).store.globals =
        s.step.store.globals := Machine.becomes_call.globals_eq
    exact ⟨_, .call he hc hargs, rfl, h.root, h.table.trans hcall.symm⟩

end Lone

/-! ## Addresses -/

/-- The program and the machine agree on the variables of a stage. -/
structure Stage.Agrees (program : Program) (s : Stage) : Prop where
  /-- Every use of a variable so far is addressed right. -/
  addresses : ∀ access ∈ s.accesses, s.Addresses program access
  /-- A slot that changes is assigned in the record. -/
  recorded : ∀ t, s.Next program t → ∀ id index slotClass,
    t.step.store.read (.slot id index slotClass) = s.step.store.read (.slot id index slotClass) ∨
      ∃ access ∈ t.accesses, access.assignsTo t.step.store (.slot id index slotClass) = true
  /-- As long as the machine goes on, there is a table for it to go on with. -/
  goesOn : ∀ m, s.step = .next m → ∃ t, s.Next program t
  /-- No place was found wanting. -/
  fault : ∀ e store, s.step = .failed e store → e.fault ≠ .impossible .badAddress

namespace Stage

variable {raw program : Program} {s t : Stage}

theorem Next.recorded (h : s.Next program t) (id : ScopeId) (index : Nat) (slotClass : SlotClass) :
    t.step.store.read (.slot id index slotClass) = s.step.store.read (.slot id index slotClass) ∨
      ∃ access ∈ t.accesses, access.assignsTo t.step.store (.slot id index slotClass) = true := by
  cases h with
  | @step m root hs _ =>
    -- the step is one of the machine with the table of the run
    have hnext : Moment.Next { s.toMoment with step := .next (m.withTable (s.tables root)) }
      (s.through m root).toMoment := .step rfl
    rw [hs]
    exact hnext.recorded id index slotClass
  | statement hs hr => exact (Moment.Next.statement hs hr).recorded id index slotClass
  | call he hc hargs => exact (Moment.Next.call he hc hargs).recorded id index slotClass
  | again => exact .inl (Store.read_openScope { s.step.store with globals := _ } _ _ _)

end Stage

/-- `def() { base }`, made in the first scope. -/
def Closure.getter : Closure where
  id := 0
  name := "anon#0"
  params := []
  body := .block [.ident "base" ⟨.reference, .global⟩ ⟨8, 12⟩] ⟨6, 14⟩
  frame := ⟨.function, 0, 0⟩
  captured := 0
  span := ⟨0, 14⟩

/-- `def() { base }` -/
def Program.getter : Program where
  body := [.define Closure.getter.name none Closure.getter.params Closure.getter.body
    Closure.getter.frame Closure.getter.span]
  shape := ⟨.program, 0, 0⟩

end SlotScript
