import SlotScript.Proofs.Machine.Growth
import SlotScript.Proofs.Machine.Session
import SlotScript.Proofs.Scope.Resolved

/-!
# A typing of the heap

A scope has a *lineage*: the regions that it and the scopes around it were opened for. A node may
be evaluated in a scope if it occurs in the program inside just these regions (`Node.Ready`), and
a function belongs to a definition that occurs inside the lineage of the scope it has captured
(`Closure.Live`). What waits on the stack is ready in the same sense (`Waiting.Ready`), and a heap
is sound if every value in it is live (`Heap.Sound`).

Scopes are only ever added and slots only ever written, so whatever is typed stays typed
(`Heap.Later`), and a scope that is opened for a region continues the lineage that it links to.
-/

namespace SlotScript

/-! ## Lineages -/

/-- A store, with the region that each of its scopes was opened for. -/
structure Heap where
  regions : List Region
  store : Store

namespace Heap

/-- The regions that a scope and the scopes around it were opened for, the scope's own first. -/
inductive Lineage (heap : Heap) : ScopeId → List Region → Prop
  | root {id : ScopeId} {scope : Scope} {region : Region} :
      heap.store.scopes[id]? = some scope → heap.regions[id]? = some region →
      region.Fits scope.shape → scope.parent = none → Lineage heap id [region]
  | child {id parent : ScopeId} {scope : Scope} {region : Region} {chain : List Region} :
      heap.store.scopes[id]? = some scope → heap.regions[id]? = some region →
      region.Fits scope.shape → scope.parent = some parent → Lineage heap parent chain →
      Lineage heap id (region :: chain)

/-- Nothing that the first heap holds has moved in the second. -/
structure Later (heap after : Heap) : Prop where
  regions : heap.regions <+: after.regions
  store : heap.store.Grows after.store

theorem Later.getElem? {heap after : Heap} (h : heap.Later after) {id : ScopeId} {region : Region}
    (hr : heap.regions[id]? = some region) : after.regions[id]? = some region := by
  obtain ⟨more, hm⟩ := h.regions
  obtain ⟨hlt, -⟩ := List.getElem?_eq_some_iff.1 hr
  rw [← hm, List.getElem?_append_left hlt, hr]

theorem Lineage.later {heap after : Heap} (h : heap.Later after) {id : ScopeId}
    {chain : List Region} (hl : heap.Lineage id chain) : after.Lineage id chain := by
  induction hl with
  | root hs hr hf hp =>
    obtain ⟨scope', hs', hshape, hparent⟩ := h.store _ _ hs
    exact .root hs' (h.getElem? hr) (hshape ▸ hf) (hparent.trans hp)
  | child hs hr hf hp _ ih =>
    obtain ⟨scope', hs', hshape, hparent⟩ := h.store _ _ hs
    exact .child hs' (h.getElem? hr) (hshape ▸ hf) (hparent.trans hp) ih

/-- So many links outwards stands the scope that was opened for the region so far out. -/
theorem Lineage.ancestor {heap : Heap} {id : ScopeId} {chain : List Region}
    (hl : heap.Lineage id chain) {distance : Nat} {region : Region}
    (hd : chain[distance]? = some region) :
    ∃ target scope, heap.store.ancestor distance id = some target ∧
      heap.store.scopes[target]? = some scope ∧ heap.regions[target]? = some region ∧
      region.Fits scope.shape := by
  induction hl generalizing distance with
  | @root id scope region' hs hr hf hp =>
    cases distance with
    | zero => cases hd; exact ⟨id, scope, rfl, hs, hr, hf⟩
    | succ distance => simp at hd
  | @child id parent scope region' chain hs hr hf hp _ ih =>
    cases distance with
    | zero => cases hd; exact ⟨id, scope, rfl, hs, hr, hf⟩
    | succ distance =>
      obtain ⟨target, found, ha, hfound⟩ := ih hd
      refine ⟨target, found, ?_, hfound⟩
      obtain ⟨kind, vars, consts, link⟩ := scope
      cases hp
      simp only [Store.ancestor, hs]
      exact ha

end Heap

theorem Scope.size_slots (scope : Scope) (slotClass : SlotClass) :
    (scope.slots slotClass).size = scope.shape.size slotClass := by
  cases slotClass <;> rfl

theorem Region.Fits.lt_size {region : Region} {shape : Shape} (hf : region.Fits shape)
    {name : String} {slotClass : SlotClass} {index : Nat}
    (h : (name, slotClass, index) ∈ region.declared) : index < shape.size slotClass := by
  have hmem : index ∈ (region.declared.filter (·.2.1 = slotClass)).map (·.2.2) :=
    List.mem_map.2 ⟨_, List.mem_filter.2 ⟨h, by simp⟩, rfl⟩
  rw [hf.slots slotClass, List.mem_reverse, List.mem_range] at hmem
  exact hmem

/-- A place that a region of the lineage declares denotes a slot of a scope of this region. -/
theorem Heap.Lineage.cell {heap : Heap} {id : ScopeId} {chain : List Region}
    (hl : heap.Lineage id chain) {name : String} {distance index : Nat} {slotClass : SlotClass}
    (hw : (Place.slot distance index slotClass).Within chain name) :
    ∃ target region scope, heap.store.ancestor distance id = some target ∧
      chain[distance]? = some region ∧ heap.regions[target]? = some region ∧
      (name, slotClass, index) ∈ region.declared ∧ heap.store.scopes[target]? = some scope ∧
      index < (scope.slots slotClass).size := by
  obtain ⟨region, hd, hmem⟩ := hw
  obtain ⟨target, scope, ha, hs, hr, hf⟩ := hl.ancestor hd
  refine ⟨target, region, scope, ha, hd, hr, hmem, hs, ?_⟩
  rw [Scope.size_slots]
  exact hf.lt_size hmem

theorem Heap.Lineage.cell? {heap : Heap} {id : ScopeId} {chain : List Region}
    (hl : heap.Lineage id chain) {name : String} {place : Place} (hw : place.Within chain name) :
    ∃ cell, heap.store.cell? id place name = some cell := by
  cases place with
  | unresolved => exact hw.elim
  | global => exact ⟨_, rfl⟩
  | slot distance index slotClass =>
    obtain ⟨target, region, scope, ha, -, -, -, hs, hlt⟩ := hl.cell hw
    exact ⟨.slot target index slotClass, by simp [Store.cell?, ha, hs, hlt]⟩

/-! ## A typed heap -/

/-- What a loop runs: its node, and the node's start. -/
inductive Loop.Runs : Loop → Option Node → Node → Prop
  | whileLoop {cond body : Node} {header bodyShape : Shape} {span : Span} {id : ScopeId} :
      Runs ⟨some cond, none, body, bodyShape, id⟩ none (.whileLoop cond body header bodyShape span)
  | forLoop {init cond step : Option Node} {body : Node} {header bodyShape : Shape} {span : Span}
      {id : ScopeId} :
      Runs ⟨cond, step, body, bodyShape, id⟩ init
        (.forLoop init cond step body header bodyShape span)

section Typing

variable (program : Program) (heap : Heap)

/-- The node may be evaluated in the scope: it occurs inside the scope's lineage. -/
def Node.Ready (node : Node) (scope : ScopeId) : Prop :=
  ∃ chain, program.Occurs chain node ∧ heap.Lineage scope chain

/-- The function was made by a definition of the program, inside the lineage of the scope that
it has captured. -/
def Closure.Live (closure : Closure) : Prop :=
  ∃ chain binding, program.Occurs chain (.define closure.name binding closure.params closure.body
    closure.frame closure.span) ∧ heap.Lineage closure.captured chain

/-- A value of the heap. -/
def Value.Live : Value → Prop
  | .function closure => closure.Live program heap
  | _ => True

/-- A call's scope: the function's region inside the lineage of the definition. `slot` is the
number of parameters that come before `rest`. -/
def Closure.Calls (closure : Closure) (frame : ScopeId) (slot : Nat) (rest : List Param) : Prop :=
  ∃ chain binding before, program.Occurs chain (.define closure.name binding closure.params
      closure.body closure.frame closure.span) ∧ heap.Lineage closure.captured chain ∧
    heap.Lineage frame (closure.region :: chain) ∧ closure.params = before ++ rest ∧
    before.length = slot

/-- A running loop: it runs a node of the program, and its header's scope continues the lineage
of that node. -/
def Loop.Ready (loop : Loop) : Prop :=
  ∃ chain init node, loop.Runs init node ∧ program.Occurs chain node ∧
    heap.Lineage loop.header (.ofHeader init loop.cond loop.step loop.body :: chain)

/-- A name stands for the place inside the lineage of the scope. -/
def Reaches (name : String) (place : Place) (scope : ScopeId) : Prop :=
  ∃ chain, program.Mentions chain name place ∧ heap.Lineage scope chain

/-- What waits can go on. -/
def Waiting.Ready : Waiting → Prop
  | .left _ operand scope _ | .logicalLeft _ _ operand scope => operand.Ready program heap scope
  | .right _ value _ => value.Live program heap
  | .assign target place _ scope _ => ∃ chain var decl op value span, program.Occurs chain
      (.assign target var decl op value span) ∧ place = var.place ∧ heap.Lineage scope chain
  | .branch _ yes no yesShape noShape scope =>
    ∃ chain, heap.Lineage scope chain ∧ program.Occurs (.ofBody yes :: chain) yes ∧
      (Region.ofBody yes).Fits yesShape ∧
      ∀ node ∈ no, program.Occurs (.ofBody node :: chain) node ∧ (Region.ofBody node).Fits noShape
  | .loopInit loop => loop.Ready program heap
  | .loopCond loop last _ | .loopBody loop last | .loopStep loop last =>
    loop.Ready program heap ∧ last.Live program heap
  | .callee _ args scope _ => ∀ arg ∈ args, arg.Ready program heap scope
  | .argument closure done rest scope _ =>
    closure.Live program heap ∧ (∀ value ∈ done, value.Live program heap) ∧
      ∀ arg ∈ rest, arg.Ready program heap scope
  | .default closure frame slot name rest _ =>
    ∃ param, param.name = name ∧ closure.Calls program heap frame slot (param :: rest)
  | .block rest scope => ∀ node ∈ rest, node.Ready program heap scope
  | .unary _ _ | .logicalRight _ | .body _ | .ret => True

/-- The flow of an evaluation carries a value of the heap. -/
def Flow.Live : Flow → Prop
  | .normal value | .ret value => value.Live program heap
  | .breakLoop | .continueLoop => True

/-- Every scope was opened for a region, and everything in the store is a value of the heap. -/
structure Heap.Sound : Prop where
  size : heap.regions.length = heap.store.scopes.size
  values : ∀ cell value, heap.store.read cell = some value → value.Live program heap

/-- The heap is sound, and what waits on it can go on. -/
structure Heap.Carries (stack : List Waiting) : Prop where
  sound : heap.Sound program
  stack : ∀ waiting ∈ stack, waiting.Ready program heap

end Typing

/-- Where the machine stands is right for the regions. -/
def Step.Right (program : Program) (regions : List Region) : Step → Prop
  | .next ⟨.eval node scope, stack, store⟩ =>
    Heap.Carries program ⟨regions, store⟩ stack ∧ node.Ready program ⟨regions, store⟩ scope
  | .next ⟨.deliver flow, stack, store⟩ =>
    Heap.Carries program ⟨regions, store⟩ stack ∧ flow.Live program ⟨regions, store⟩
  | .done flow store => Heap.Sound program ⟨regions, store⟩ ∧ flow.Live program ⟨regions, store⟩
  | .failed error store =>
    Heap.Sound program ⟨regions, store⟩ ∧ error.fault ≠ .impossible .badAddress

/-- From the heap, the machine goes to a step that is right, the store grows on the way, and every
variable that is used is reached. -/
structure Goes (program : Program) (heap : Heap) (step : Step) (trace : Trace) : Prop where
  right : step.Right program (heap.regions ++ trace.opened)
  grows : heap.store.Grows step.store
  reaches : ∀ a ∈ trace.accesses,
    Reaches program ⟨heap.regions ++ trace.opened, step.store⟩ a.name a.place a.scope

/-! ## What is typed stays typed -/

section Later

variable {program : Program} {heap after : Heap}

theorem Node.Ready.later (h : heap.Later after) {node : Node} {scope : ScopeId}
    (hn : node.Ready program heap scope) : node.Ready program after scope := by
  obtain ⟨chain, ho, hl⟩ := hn
  exact ⟨chain, ho, hl.later h⟩

theorem Closure.Live.later (h : heap.Later after) {closure : Closure}
    (hc : closure.Live program heap) : closure.Live program after := by
  obtain ⟨chain, binding, ho, hl⟩ := hc
  exact ⟨chain, binding, ho, hl.later h⟩

theorem Value.Live.later (h : heap.Later after) {value : Value}
    (hv : value.Live program heap) : value.Live program after := by
  cases value with
  | function closure => exact Closure.Live.later h hv
  | _ => trivial

theorem Closure.Calls.later (h : heap.Later after) {closure : Closure} {frame : ScopeId}
    {slot : Nat} {rest : List Param} (hc : closure.Calls program heap frame slot rest) :
    closure.Calls program after frame slot rest := by
  obtain ⟨chain, binding, before, ho, hl, hf, hp, hs⟩ := hc
  exact ⟨chain, binding, before, ho, hl.later h, hf.later h, hp, hs⟩

theorem Loop.Ready.later (h : heap.Later after) {loop : Loop} (hl : loop.Ready program heap) :
    loop.Ready program after := by
  obtain ⟨chain, init, node, hruns, ho, hh⟩ := hl
  exact ⟨chain, init, node, hruns, ho, hh.later h⟩

theorem Reaches.later (h : heap.Later after) {name : String} {place : Place} {scope : ScopeId}
    (hr : Reaches program heap name place scope) : Reaches program after name place scope := by
  obtain ⟨chain, hm, hl⟩ := hr
  exact ⟨chain, hm, hl.later h⟩

theorem Waiting.Ready.later (h : heap.Later after) {waiting : Waiting}
    (hw : waiting.Ready program heap) : waiting.Ready program after := by
  cases waiting with
  | left | logicalLeft => exact Node.Ready.later h hw
  | right => exact Value.Live.later h hw
  | assign =>
    obtain ⟨chain, var, decl, op, value, span, ho, hplace, hl⟩ := hw
    exact ⟨chain, var, decl, op, value, span, ho, hplace, hl.later h⟩
  | branch =>
    obtain ⟨chain, hl, hrest⟩ := hw
    exact ⟨chain, hl.later h, hrest⟩
  | loopInit => exact Loop.Ready.later h hw
  | loopCond | loopBody | loopStep => exact ⟨hw.1.later h, hw.2.later h⟩
  | callee => exact fun arg ha => (hw arg ha).later h
  | argument =>
    exact ⟨hw.1.later h, fun v hv => (hw.2.1 v hv).later h, fun a ha => (hw.2.2 a ha).later h⟩
  | default =>
    obtain ⟨param, hp, hc⟩ := hw
    exact ⟨param, hp, hc.later h⟩
  | block => exact fun node hn => (hw node hn).later h
  | unary | logicalRight | body | ret => trivial

theorem Value.live_null : Value.null.Live program heap := trivial

theorem Value.live_of_isPlain {value : Value} (h : value.isPlain) :
    value.Live program heap := by
  cases value with
  | function closure => cases h
  | _ => trivial

/-- What waits can still go on when the heap has grown, if it is still sound. -/
theorem Heap.Carries.later (h : heap.Later after) {stack : List Waiting}
    (hc : heap.Carries program stack) (hs : after.Sound program) : after.Carries program stack :=
  ⟨hs, fun w hw => (hc.stack w hw).later h⟩

end Later

/-! ## Opening and writing -/

namespace Heap

variable {program : Program} {heap : Heap}

/-- The heap with one more scope, opened for a region. -/
def openScope (heap : Heap) (shape : Shape) (parent : Option ScopeId) (region : Region) : Heap :=
  ⟨heap.regions ++ [region], (heap.store.openScope shape parent).2⟩

/-- The heap with a value in a cell. -/
def write (heap : Heap) (cell : Cell) (value : Value) : Heap :=
  ⟨heap.regions, heap.store.write cell value⟩

theorem later_openScope (heap : Heap) (shape : Shape) (parent : Option ScopeId)
    (region : Region) : heap.Later (heap.openScope shape parent region) :=
  ⟨List.prefix_append _ _, heap.store.grows_openScope shape parent⟩

theorem later_write (heap : Heap) (cell : Cell) (value : Value) :
    heap.Later (heap.write cell value) :=
  ⟨List.prefix_refl _, heap.store.grows_write cell value⟩

theorem Sound.openScope (hs : heap.Sound program) (shape : Shape) (parent : Option ScopeId)
    (region : Region) : (heap.openScope shape parent region).Sound program where
  size := by simp [Heap.openScope, hs.size]
  values cell value h := by
    rw [Heap.openScope, Store.read_openScope] at h
    exact (hs.values cell value h).later (heap.later_openScope shape parent region)

theorem Sound.write (hs : heap.Sound program) {value : Value} (hv : value.Live program heap)
    (cell : Cell) : (heap.write cell value).Sound program where
  size := by simp [Heap.write, hs.size]
  values other found h := by
    refine Value.Live.later (heap.later_write cell value) ?_
    rcases Store.read_write h with ⟨-, rfl⟩ | h
    · exact hv
    · exact hs.values other found h

/-- A new scope continues the lineage of the scope that it links to. -/
theorem Sound.lineage_openScope (hs : heap.Sound program) {parent : ScopeId} {chain : List Region}
    (hl : heap.Lineage parent chain) {region : Region} {shape : Shape} (hf : region.Fits shape) :
    (heap.openScope shape (some parent) region).Lineage heap.store.scopes.size
      (region :: chain) := by
  refine .child (heap.store.getElem?_openScope shape (some parent)) ?_
    (by rwa [Scope.shape_ofShape]) rfl (hl.later (heap.later_openScope shape _ region))
  show (heap.regions ++ [region])[heap.store.scopes.size]? = some region
  rw [← hs.size, List.getElem?_concat_length]

theorem Carries.openScope {stack : List Waiting} (hc : heap.Carries program stack) (shape : Shape)
    (parent : Option ScopeId) (region : Region) :
    (heap.openScope shape parent region).Carries program stack :=
  hc.later (heap.later_openScope shape parent region) (hc.sound.openScope shape parent region)

theorem Carries.write {stack : List Waiting} (hc : heap.Carries program stack) {value : Value}
    (hv : value.Live program heap) (cell : Cell) : (heap.write cell value).Carries program stack :=
  hc.later (heap.later_write cell value) (hc.sound.write hv cell)

theorem Carries.push {stack : List Waiting} (hc : heap.Carries program stack) {waiting : Waiting}
    (hw : waiting.Ready program heap) : heap.Carries program (waiting :: stack) :=
  ⟨hc.sound, fun w h => by
    rcases List.mem_cons.1 h with rfl | h
    · exact hw
    · exact hc.stack w h⟩

end Heap

theorem Value.Live.write {program : Program} {heap : Heap} {value : Value}
    (hv : value.Live program heap) (cell : Cell) : value.Live program (heap.write cell value) :=
  hv.later (heap.later_write cell value)

end SlotScript
