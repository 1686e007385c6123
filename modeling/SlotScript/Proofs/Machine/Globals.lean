import SlotScript.Proofs.Machine.Address
import SlotScript.Proofs.Machine.Stack
import SlotScript.Proofs.Machine.Update

/-!
# The table of global names

A variable that no scope declares is looked up in the table of global names. The table starts with the
names that the host gives, and a function that is defined in the program's own scope enters its name.

**Theorem (`Session.keys_exact`).** Whatever a host does with a program that compiles, at every moment
the names in the table are those that the host gave and those of the definitions that have run in the
program's own scope. No other step adds a name.

Three things could add a name. An assignment without an operator could, but the resolver gives its target
a slot (`Resolved.slotted`), and what waits on the stack was put there by such an assignment
(`Machine.assign_of_mem_step`). An assignment with an operator reads the name before it writes it, so the name
is there already. A definition gives its name a slot too, and enters it into the table only in a scope that
the program opened, which is the first one (`Moment.Local.kindOf_eq_program`).
-/

namespace SlotScript

/-! ## Targets have slots -/

/-- What a node assigns without looking has a slot: the target of an assignment without an operator, and
the name of a function. -/
def Node.Slotted : Node → Prop
  | .assign _ var _ none _ _ => var.place ≠ .global
  | .define _ binding _ _ _ _ => ∀ var ∈ binding, var.place ≠ .global
  | _ => True

theorem Context.declare_place (here : Context) (name : String) (slotClass : SlotClass) :
    (here.declare name slotClass).1.place ≠ .global := by
  intro h
  cases h

theorem resolveTarget_slotted {outer : List Context} {here after : Context} {target : String}
    {span : Span} {var : VarRef} (h : resolveTarget outer here target none span = .ok (var, after)) :
    var.place ≠ .global := by
  unfold resolveTarget at h
  split at h
  · cases h
  · cases h
    simp
  · rename_i hop _ _
    cases hop
  · cases h
    exact here.declare_place target .var

/-- The resolver gives slots to all that is assigned without looking. -/
theorem Resolved.slotted {inLoop : Bool} {chain : List Region} {node : Node}
    (h : Resolved inLoop chain node) : node.Slotted := by
  obtain ⟨outer, here, raw, after, h, -⟩ := h
  cases resolution_of_resolve h with
  | @assign _ _ _ op _ _ _ _ _ _ ht =>
    cases op with
    | none => exact resolveTarget_slotted ht
    | some op => trivial
  | @var target _ op | @const target _ op =>
    cases op with
    | none => exact here.declare_place target _
    | some op => trivial
  | unnamed => simp [Node.Slotted]
  | @named name =>
    rintro var ⟨⟩
    exact here.declare_place name .var
  | _ => trivial

/-! ## The program's own scope -/

/-- The step opens no scope of the program's kind. -/
def Trace.Inner (trace : Trace) : Prop := ∀ region ∈ trace.opened, region.kind ≠ .program

theorem Trace.inner_nil {accesses : List Access} : Trace.Inner ⟨[], accesses⟩ := by
  intro region hmem
  cases hmem

theorem Trace.inner_cons {region : Region} {opened : List Region} {accesses : List Access}
    (hkind : region.kind ≠ .program) (h : Trace.Inner ⟨opened, accesses⟩) :
    Trace.Inner ⟨region :: opened, accesses⟩ :=
  List.forall_mem_cons.mpr ⟨hkind, h⟩

namespace Machine

open Trace (inner_nil inner_cons)

theorem inner_loopRoundTrace (loop : Loop) : (loopRoundTrace loop).Inner := by
  rw [loopRoundTrace]
  split
  · exact inner_nil
  · exact inner_cons (by simp [Region.ofBody]) inner_nil

theorem inner_loopNextTrace (loop : Loop) : (loopNextTrace loop).Inner := by
  rw [loopNextTrace]
  split
  · exact inner_nil
  · exact inner_loopRoundTrace loop

theorem inner_callTrace (closure : Closure) (args : List Value) (store : Store) :
    (callTrace closure args store).Inner := by
  rw [callTrace]
  split
  · exact inner_nil
  · exact inner_cons (by simp [Closure.region, Region.ofFunction]) inner_nil

theorem inner_callArgsTrace (closure : Closure) (done : List Value) (args : List Node) (store : Store) :
    (callArgsTrace closure done args store).Inner := by
  cases args with
  | nil => exact inner_callTrace closure done.reverse store
  | cons arg rest => exact inner_nil

theorem inner_takeBranchTrace (test : Bool) (yes : Node) (no : Option Node) :
    (takeBranchTrace test yes no).Inner := by
  cases test with
  | true => exact inner_cons (by simp [Region.ofBody]) inner_nil
  | false =>
    cases no with
    | none => exact inner_nil
    | some no => exact inner_cons (by simp [Region.ofBody]) inner_nil

theorem inner_startTrace (node : Node) (scope : ScopeId) : (startTrace node scope).Inner := by
  cases node with
  | whileLoop cond body header bodyShape span =>
    exact inner_cons (by simp [Region.ofHeader]) inner_nil
  | forLoop init cond step body header bodyShape span =>
    cases init with
    | some init => exact inner_cons (by simp [Region.ofHeader]) inner_nil
    | none => exact inner_cons (by simp [Region.ofHeader]) (inner_loopRoundTrace _)
  | define name binding params body frame span => cases binding <;> exact inner_nil
  | _ => exact inner_nil

theorem inner_resumeTrace (waiting : Waiting) (value : Value) (store : Store) :
    (resumeTrace waiting value store).Inner := by
  cases waiting with
  | assign target place op scope span =>
    cases op with
    | none => exact inner_nil
    | some op =>
      rw [resumeTrace, updateTrace]
      split
      · exact inner_nil
      · split
        · exact inner_nil
        · exact inner_nil
  | branch condSpan yes no yesShape noShape scope =>
    cases value with
    | bool test => exact inner_takeBranchTrace test yes no
    | _ => exact inner_nil
  | loopInit loop => exact inner_loopRoundTrace loop
  | loopCond loop last condSpan =>
    cases value with
    | bool test =>
      cases test with
      | true => exact inner_cons (by simp [Region.ofBody]) inner_nil
      | false => exact inner_nil
    | _ => exact inner_nil
  | loopBody loop last => exact inner_loopNextTrace loop
  | loopStep loop last => exact inner_loopRoundTrace loop
  | callee calleeSpan args scope span =>
    cases value with
    | function closure => exact inner_callArgsTrace closure [] args store
    | _ => exact inner_nil
  | argument closure done rest scope span =>
    exact inner_callArgsTrace closure (value :: done) rest store
  | _ => exact inner_nil

/-- No function, loop or branch opens a scope of the program's kind. -/
theorem inner_trace (m : Machine) : m.trace.Inner := by
  obtain ⟨control, stack, store⟩ := m
  cases control with
  | eval node scope => exact inner_startTrace node scope
  | deliver flow =>
    cases stack with
    | nil => exact inner_nil
    | cons waiting stack =>
      cases flow with
      | normal value => exact inner_resumeTrace waiting value store
      | continueLoop =>
        cases waiting with
        | loopBody loop last => exact inner_loopNextTrace loop
        | _ => exact inner_nil
      | breakLoop => cases waiting <;> exact inner_nil
      | ret value => cases waiting <;> exact inner_nil

end Machine

/-! ## Sessions -/

/-- Only the first scope is the program's, and an assignment that waits and does not look has a slot. -/
structure Moment.Local (program : Program) (a : Moment) : Prop where
  regions : ∃ inner, a.regions = .ofProgram program :: inner ∧ ∀ region ∈ inner, region.kind ≠ .program
  stack : ∀ target place scope span, .assign target place none scope span ∈ a.step.stack →
    place ≠ .global

namespace Moment

variable {program raw : Program} {seeds : List (String × Value)} {a b : Moment}

theorem Local.after (h : a.Local program) {step : Step} {trace : Trace} (htrace : trace.Inner)
    (hstack : ∀ target place scope span, .assign target place none scope span ∈ step.stack →
      place ≠ .global) : (a.after step trace).Local program := by
  obtain ⟨inner, hregions, hinner⟩ := h.regions
  refine ⟨⟨inner ++ trace.opened, by rw [Moment.after, hregions, List.cons_append], ?_⟩, hstack⟩
  intro region hmem
  rcases List.mem_append.mp hmem with hmem | hmem
  · exact hinner region hmem
  · exact htrace region hmem

/-- What the machine evaluates has slots for all that it assigns without looking. -/
theorem Right.slotted (hp : raw.resolve = .ok program) (h : a.Right program) {node : Node}
    {scope : ScopeId} {stack : List Waiting} {store : Store}
    (hs : a.step = .next ⟨.eval node scope, stack, store⟩) : node.Slotted := by
  have hright := h.step
  rw [hs] at hright
  obtain ⟨chain, hoccurs, -⟩ := hright.2
  obtain ⟨inLoop, hresolved⟩ := hoccurs.resolved hp
  exact hresolved.slotted

theorem Local.next (hp : raw.resolve = .ok program) (hright : a.Right program) (h : a.Local program)
    (hn : a.Next b) : b.Local program := by
  cases hn with
  | @step m hs =>
    refine h.after m.inner_trace ?_
    intro target place scope span hmem
    rcases Machine.assign_of_mem_step hmem with hmem | ⟨var, decl, value, hcontrol, rfl⟩
    · exact h.stack target place scope span (by rwa [hs])
    · obtain ⟨control, stack, store⟩ := m
      cases hcontrol
      exact hright.slotted hp hs
  | statement hs hr =>
    refine ⟨h.regions, ?_⟩
    intro target place scope span hmem
    cases hmem
  | @call known args closure he hc hargs =>
    have hb : Local program { a with rest := [], known := known } := ⟨h.regions, h.stack⟩
    refine hb.after (Machine.inner_callTrace closure args a.step.store) ?_
    intro target place scope span hmem
    rcases Machine.pushes_call _ hmem with hmem | hcall
    · cases hmem
    · cases hcall

theorem local_start (program : Program) (seeds : List (String × Value)) :
    (start program seeds).Local program := by
  refine ⟨⟨[], rfl, by simp⟩, ?_⟩
  intro target place scope span hmem
  cases hmem

/-- The program's own scope is the first one. -/
theorem Local.kindOf_eq_program (h : a.Local program) {scope : ScopeId} {chain : List Region}
    (hl : Heap.Lineage ⟨a.regions, a.step.store⟩ scope chain) :
    a.step.store.kindOf scope = some .program ↔ scope = 0 := by
  obtain ⟨inner, hregions, hinner⟩ := h.regions
  have hkind : ∀ found region, a.step.store.scopes[scope]? = some found →
      a.regions[scope]? = some region → region.Fits found.shape →
      (a.step.store.kindOf scope = some .program ↔ scope = 0) := by
    intro found region hfound hregion hfits
    have hkind : found.kind = region.kind := hfits.kind
    rw [Store.kindOf, hfound, Option.map_some, Option.some_inj, hkind]
    rw [hregions] at hregion
    cases scope with
    | zero =>
      cases hregion
      exact iff_of_true rfl rfl
    | succ scope =>
      have hmem : region ∈ inner := List.mem_of_getElem? hregion
      exact iff_of_false (hinner region hmem) (Nat.succ_ne_zero scope)
  cases hl with
  | root hs hr hf => exact hkind _ _ hs hr hf
  | child hs hr hf => exact hkind _ _ hs hr hf

/-- A named function is about to be defined in the program's own scope. -/
def Defines (a : Moment) (name : String) : Prop :=
  ∃ var params body frame span stack store,
    a.step = .next ⟨.eval (.define name (some var) params body frame span) 0, stack, store⟩

/-- An assignment enters no name that is not there. -/
theorem Local.mem_keys_of_deliver (h : a.Local program) {flow : Flow} {stack : List Waiting}
    {store : Store} (hs : a.step = .next ⟨.deliver flow, stack, store⟩) {key : String}
    (hkey : key ∈ Machine.entries ⟨.deliver flow, stack, store⟩) : key ∈ store.keys := by
  cases flow with
  | breakLoop | continueLoop | ret => simp [Machine.entries] at hkey
  | normal value =>
    cases stack with
    | nil => simp [Machine.entries] at hkey
    | cons waiting stack =>
      cases waiting with
      | assign target place op scope span =>
        -- the place of the entry is the table, so the assignment has an operator
        have hplace : ∀ {key}, key ∈ Machine.writeEntries target place scope store →
            place = .global ∧ key = target := by
          intro key hkey
          rw [Machine.writeEntries, Option.mem_toList, Option.bind_eq_some_iff] at hkey
          obtain ⟨cell, hcell, hentry⟩ := hkey
          exact Store.entry?_of_cell? hcell hentry
        cases op with
        | none =>
          have hslot := h.stack target place scope span (by rw [hs]; exact List.mem_cons_self)
          exact absurd (hplace hkey).1 hslot
        | some op =>
          rw [show Machine.entries _ = Machine.updateEntries target place op value scope store from rfl,
            Machine.updateEntries] at hkey
          split at hkey
          · cases hkey
          · rename_i current hread
            split at hkey
            · cases hkey
            · obtain ⟨rfl, rfl⟩ := hplace hkey
              exact Store.mem_keys_of_lookup hread
      | _ => simp [Machine.entries] at hkey

/-- A definition in the program's own scope enters the name of the function, any other none. -/
theorem Local.mem_defineEntries (hp : raw.resolve = .ok program) (hright : a.Right program)
    (h : a.Local program) {name : String} {binding : Option VarRef} {params : List Param} {body : Node}
    {frame : Shape} {span : Span} {scope : ScopeId} {stack : List Waiting} {store : Store}
    (hs : a.step = .next ⟨.eval (.define name binding params body frame span) scope, stack, store⟩)
    (key : String) :
    key ∈ Machine.defineEntries name binding scope store ↔ binding.isSome ∧ scope = 0 ∧ key = name := by
  cases binding with
  | none => simp [Machine.defineEntries]
  | some var =>
    have hslotted := hright.slotted hp hs var rfl
    have hstep := hright.step
    rw [hs] at hstep
    obtain ⟨chain, hoccurs, hlineage⟩ := hstep.2
    have hkind : store.kindOf scope = some .program ↔ scope = 0 := by
      have hlineage : Heap.Lineage ⟨a.regions, a.step.store⟩ scope chain := by rwa [hs]
      have hkind := h.kindOf_eq_program hlineage
      rwa [hs] at hkind
    obtain ⟨cell, hcell⟩ : ∃ cell, store.cell? scope var.place name = some cell :=
      hlineage.cell? ((Program.Mentions.function hoccurs).within hp)
    have hentry : cell.entry? = none := by
      cases hentry : cell.entry? with
      | none => rfl
      | some key => exact absurd (Store.entry?_of_cell? hcell hentry).1 hslotted
    simp only [Machine.defineEntries, hcell, hentry, hkind]
    by_cases hscope : scope = 0
    · simp [hscope]
    · simp [hscope]

theorem Local.mem_entries (hp : raw.resolve = .ok program) (hright : a.Right program)
    (h : a.Local program) {m : Machine} (hs : a.step = .next m) (key : String) :
    key ∈ m.entries ∨ key ∈ m.store.keys ↔ key ∈ m.store.keys ∨ a.Defines key := by
  obtain ⟨control, stack, store⟩ := m
  cases control with
  | deliver flow =>
    have hdefines : ¬ a.Defines key := by
      rintro ⟨var, params, body, frame, span, stack', store', hs'⟩
      rw [hs] at hs'
      cases hs'
    rw [or_iff_right_of_imp (h.mem_keys_of_deliver hs), or_iff_left hdefines]
  | eval node scope =>
    by_cases hnode : ∃ name binding params body frame span,
        node = .define name binding params body frame span
    · obtain ⟨name, binding, params, body, frame, span, rfl⟩ := hnode
      rw [show Machine.entries _ = Machine.defineEntries name binding scope store from rfl,
        h.mem_defineEntries hp hright hs, or_comm]
      refine or_congr_right ⟨?_, ?_⟩
      · rintro ⟨hbinding, rfl, rfl⟩
        obtain ⟨var, rfl⟩ := Option.isSome_iff_exists.mp hbinding
        exact ⟨var, params, body, frame, span, stack, store, hs⟩
      · rintro ⟨var, params', body', frame', span', stack', store', hs'⟩
        rw [hs] at hs'
        cases hs'
        exact ⟨rfl, rfl, rfl⟩
    · have hdefines : ¬ a.Defines key := by
        rintro ⟨var, params, body, frame, span, stack', store', hs'⟩
        rw [hs] at hs'
        cases hs'
        exact hnode ⟨_, _, _, _, _, _, rfl⟩
      have hentries : Machine.entries ⟨.eval node scope, stack, store⟩ = [] := by
        cases node with
        | define => exact absurd ⟨_, _, _, _, _, _, rfl⟩ hnode
        | _ => rfl
      rw [hentries, or_iff_left hdefines]
      simp

/-- **What comes next adds the name of a function that it defines in the program's own scope, and no
other name.** -/
theorem Local.mem_keys_next (hp : raw.resolve = .ok program) (hright : a.Right program)
    (h : a.Local program) (hn : a.Next b) (key : String) :
    key ∈ b.step.store.keys ↔ key ∈ a.step.store.keys ∨ a.Defines key := by
  have hdefines : ∀ {known}, a.ended? = some known → ¬ a.Defines key := by
    rintro known hended ⟨var, params, body, frame, span, stack, store, hs⟩
    rw [ended?, hs] at hended
    cases hended
  cases hn with
  | @step m hs =>
    have hkeys := (Machine.becomes_step m).mem_keys key
    rw [h.mem_entries hp hright hs] at hkeys
    rw [hs]
    exact hkeys
  | statement hs hr =>
    have hnot : ¬ a.Defines key := by
      rintro ⟨var, params, body, frame, span, stack, store, hs'⟩
      rw [hs] at hs'
      cases hs'
    rw [hs, or_iff_left hnot]
    rfl
  | @call known args closure he hc hargs =>
    rw [or_iff_left (hdefines he)]
    have hcall : Store.Becomes [] a.step.store (Machine.call closure args none [] a.step.store).store :=
      Machine.becomes_call
    exact (hcall.mem_keys key).trans (or_iff_right List.not_mem_nil)

end Moment

theorem Session.local {raw program : Program} {seeds : List (String × Value)} {a : Moment}
    (hp : raw.resolve = .ok program) (hseeds : PlainSeeds seeds)
    (h : Session program seeds a) : a.Local program := by
  induction h with
  | refl => exact Moment.local_start program seeds
  | tail ha hn ih => exact ih.next hp (Session.right hp hseeds ha) hn

/-- A function of this name has been defined in the program's own scope, at a moment before this one. -/
def Session.Defined (program : Program) (seeds : List (String × Value)) (b : Moment) (name : String) :
    Prop :=
  ∃ a after, Session program seeds a ∧ a.Defines name ∧ a.Next after ∧
    Relation.ReflTransGen Moment.Next after b

theorem Session.mem_keys {raw program : Program} {seeds : List (String × Value)} {b : Moment}
    (hp : raw.resolve = .ok program) (hseeds : PlainSeeds seeds)
    (h : Session program seeds b) (key : String) :
    key ∈ b.step.store.keys ↔ key ∈ seeds.map Prod.fst ∨ Session.Defined program seeds b key := by
  -- a name that has been entered is never taken out again
  have hstays : ∀ {a b}, Session program seeds a → Relation.ReflTransGen Moment.Next a b →
      key ∈ a.step.store.keys → key ∈ b.step.store.keys := by
    intro a b ha hab hkey
    induction hab with
    | refl => exact hkey
    | tail hab hn ih =>
      have hb : Session program seeds _ := ha.trans hab
      exact ((hb.local hp hseeds).mem_keys_next hp (hb.right hp hseeds) hn key).mpr (.inl ih)
  have hstart : key ∈ (Moment.start program seeds).step.store.keys ↔ key ∈ seeds.map Prod.fst :=
    Globals.mem_ofList seeds key
  constructor
  · intro hkey
    induction h with
    | refl => exact .inl (hstart.mp hkey)
    | @tail a b ha hn ih =>
      have ha : Session program seeds a := ha
      rcases ((ha.local hp hseeds).mem_keys_next hp (ha.right hp hseeds) hn key).mp hkey with
        hkey | hdefines
      · rcases ih hkey with hseed | ⟨c, after, hc, hdefines, hafter, hreach⟩
        · exact .inl hseed
        · exact .inr ⟨c, after, hc, hdefines, hafter, hreach.tail hn⟩
      · exact .inr ⟨a, b, ha, hdefines, hn, .refl⟩
  · rintro (hseed | ⟨a, after, ha, hdefines, hafter, hreach⟩)
    · exact hstays .refl h (hstart.mpr hseed)
    · refine hstays (ha.tail hafter) hreach ?_
      exact ((ha.local hp hseeds).mem_keys_next hp (ha.right hp hseeds) hafter key).mpr (.inr hdefines)

/-- **Locals stay out of the table of global names.** Whatever a host does with a program that compiles,
from any plain global names: at every moment the names in the table are those that the host gave and
those of the functions that were defined in the program's own scope until then; and what adds a name is
such a definition, with this name. What the host is left with is the store of such a moment.

The global names are plain (`PlainSeeds`) because the table is that of one run. A function of an earlier run
would see the table of that run instead. -/
theorem Session.keys_exact {source : String} {program : Program} {seeds : List (String × Value)}
    (hsource : compile source = .ok program) (hseeds : PlainSeeds seeds) :
    (∀ b, Session program seeds b → ∀ key, key ∈ b.step.store.keys ↔
      key ∈ seeds.map Prod.fst ∨ Session.Defined program seeds b key) ∧
    (∀ a b, Session program seeds a → a.Next b →
      ∀ key ∈ b.step.store.keys, key ∉ a.step.store.keys → a.Defines key) ∧
    ∀ store known ending, HostRun program seeds store known ending →
      ∃ b, Session program seeds b ∧ b.step.store = store := by
  obtain ⟨raw, hp⟩ := resolve_of_compile hsource
  refine ⟨?_, ?_, ?_⟩
  · intro b hb key
    exact hb.mem_keys hp hseeds key
  · intro a b ha hn key hkey hnew
    have hnext := (ha.local hp hseeds).mem_keys_next hp (ha.right hp hseeds) hn key
    exact (hnext.mp hkey).resolve_left hnew
  · intro store known ending hrun
    obtain ⟨b, hb, hshows⟩ := hrun.session
    exact ⟨b, hb, hshows.store⟩

/-- A function that changes a name of the host, and defines another one inside. -/
theorem Session.keys_exact_counter : ∃ program,
    compile "def tick(n = 1) { def by() { n }; total += by() }; var x = tick()" = .ok program ∧
    PlainSeeds [("total", .int 1)] ∧
    (∀ b, Session program [("total", .int 1)] b → ∀ key, key ∈ b.step.store.keys ↔
      key ∈ [("total", Value.int 1)].map Prod.fst ∨
        Session.Defined program [("total", .int 1)] b key) ∧
    (∀ a b, Session program [("total", .int 1)] a → a.Next b →
      ∀ key ∈ b.step.store.keys, key ∉ a.step.store.keys → a.Defines key) ∧
    ∀ store known ending, HostRun program [("total", .int 1)] store known ending →
      ∃ b, Session program [("total", .int 1)] b ∧ b.step.store = store := by
  obtain ⟨program, h⟩ : ∃ program, compile
      "def tick(n = 1) { def by() { n }; total += by() }; var x = tick()" = .ok program :=
    compile_ok_of_isOk (by decide +kernel)
  have hseeds : PlainSeeds [("total", .int 1)] := by decide
  exact ⟨program, h, hseeds, Session.keys_exact h hseeds⟩

end SlotScript
