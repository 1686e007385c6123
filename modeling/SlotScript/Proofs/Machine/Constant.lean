import Mathlib
import SlotScript.Proofs.Machine.Due

/-!
# Constants are constant

The resolver refuses an assignment to a constant; nothing at run time protects a constant's slot.
What is left is the declaration itself: it assigns the slot whenever it runs, and so a constant is
constant if its declaration runs only once in every scope that is opened for its region.

**Theorem (`Session.constant_once`).** In every session of a program that compiles, a constant's
slot is assigned at most once, and keeps its value once it has one, unless the declaration
stands where it is evaluated again in the same scope (`Program.Repeats`): in the condition or the
step of a loop, or in the default of a parameter.

The exception is real (`HostRun.constant_changes`). The invariant is that what was assigned and
what is due come to at most one for every slot (`Moment.Steady`).
-/

namespace SlotScript

/-! ## Sessions -/

theorem Store.lt_size_of_cell? {store : Store} {scope id : ScopeId} {place : Place} {name : String}
    {index : Nat} {slotClass : SlotClass}
    (h : store.cell? scope place name = some (.slot id index slotClass)) :
    id < store.scopes.size := by
  cases Store.cell?_eq_some_iff.mp h with
  | slot _ hscope _ => exact (Array.getElem?_eq_some_iff.mp hscope).1

/-- No slot of a scope that is not open yet was assigned. -/
theorem assignments_eq_zero {store : Store} {id : ScopeId} {index : Nat} {slotClass : SlotClass}
    (hid : store.scopes.size ≤ id) (accesses : List Access) :
    assignments store (.slot id index slotClass) accesses = 0 := by
  refine List.countP_eq_zero.2 fun access _ ha => ?_
  simp only [Access.assignsTo, Bool.and_eq_true, decide_eq_true_eq] at ha
  exact Nat.not_lt.2 hid (Store.lt_size_of_cell? ha.2)

theorem assignments_append (store : Store) (cell : Cell) (a b : List Access) :
    assignments store cell (a ++ b) = assignments store cell a + assignments store cell b :=
  List.countP_append

section Sessions

variable {raw program : Program} (hp : raw.resolve = .ok program)

include hp

/-- What was assigned stays assigned, and nothing else becomes so. -/
theorem assignments_later {heap : Heap} {after : Store} (hg : heap.store.Grows after)
    {accesses : List Access}
    (hr : ∀ access ∈ accesses, Reaches program heap access.name access.place access.scope)
    (cell : Cell) : assignments after cell accesses = assignments heap.store cell accesses := by
  refine List.countP_congr fun access hmem => ?_
  obtain ⟨found, hfound⟩ := (hr access hmem).cell? hp
  simp only [Access.assignsTo, hfound, hg.cell? hfound]

/-- Every slot of a constant is assigned or due at most once, repeated ones apart, and has a value
only if it was assigned. -/
structure Moment.Steady (program : Program) (a : Moment) : Prop where
  once : ∀ id index, Repeated program ⟨a.regions, a.step.store⟩ id index ∨
    a.step.due id index + dueIn id index 0 (declaredAll a.rest) +
      assignments a.step.store (.slot id index .const) a.accesses ≤ 1
  assigned : ∀ id index value, a.step.store.read (.slot id index .const) = some value →
    assignments a.step.store (.slot id index .const) a.accesses ≠ 0

namespace Moment

theorem Steady.after {a : Moment} (hr : a.Right program) (hs : a.Steady program) {step : Step}
    {trace : Trace} (hrec : Records a.step.store step trace.accesses)
    (hpays : ∀ id index limit, a.step.due id index ≤ limit →
      (a.step.store.scopes.size ≤ id → 1 ≤ limit) →
      Pays program ⟨a.regions, a.step.store⟩ id index limit step trace) :
    (a.after step trace).Steady program := by
  have hold : ∀ cell, assignments step.store cell a.accesses =
      assignments a.step.store cell a.accesses := assignments_later hp hrec.grows hr.reaches
  constructor
  · intro id index
    have hgoal : assignments step.store (.slot id index .const) (a.accesses ++ trace.accesses) =
        assignments a.step.store (.slot id index .const) a.accesses +
          assignments step.store (.slot id index .const) trace.accesses := by
      rw [assignments_append, hold]
    show Repeated program ⟨a.regions ++ trace.opened, step.store⟩ id index ∨
      step.due id index + dueIn id index 0 (declaredAll a.rest) +
        assignments step.store (.slot id index .const) (a.accesses ++ trace.accesses) ≤ 1
    rw [hgoal]
    rcases hs.once id index with hrep | hle
    · exact .inl (hrep.later ⟨List.prefix_append _ _, hrec.grows⟩)
    · -- what is left of the one assignment, after the record and the rest of the program
      have hfresh : a.step.store.scopes.size ≤ id →
          dueIn id index 0 (declaredAll a.rest) +
            assignments a.step.store (.slot id index .const) a.accesses = 0 := fun h => by
        rw [dueIn_eq_zero hr.root h, assignments_eq_zero h]
      have hlimit : a.step.store.scopes.size ≤ id →
          1 ≤ 1 - (dueIn id index 0 (declaredAll a.rest) +
            assignments a.step.store (.slot id index .const) a.accesses) := fun h => by
        have := hfresh h
        omega
      rcases hpays id index _ (by omega) hlimit with hrep | hpaid
      · exact .inl hrep
      · exact .inr (by omega)
  · intro id index value hread
    show assignments step.store (.slot id index .const) (a.accesses ++ trace.accesses) ≠ 0
    rw [assignments_append, hold]
    rcases hrec.slots id index .const with hsame | ⟨access, hmem, ha⟩
    · have := hs.assigned id index value (hsame ▸ hread)
      omega
    · have : 0 < assignments step.store (.slot id index .const) trace.accesses :=
        List.countP_pos_iff.2 ⟨access, hmem, ha⟩
      omega

theorem Steady.next {a b : Moment} (hr : a.Right program) (hs : a.Steady program)
    (hn : Next a b) : b.Steady program := by
  cases hn with
  | @step m hm =>
    have hright := hr.step
    rw [hm] at hright
    have hstore : a.step.store = m.store := by rw [hm]; rfl
    refine hs.after hp hr ?_ fun id index limit hd hf => ?_
    · rw [hstore]
      exact Machine.records_step m
    · rw [hstore] at hf ⊢
      rw [hm] at hd
      exact pays_step hp hright hd hf
  | @statement value store node rest hd hrest =>
    obtain ⟨step, statements, known, regions, accesses⟩ := a
    cases hd
    cases hrest
    refine ⟨fun id index => ?_, hs.assigned⟩
    rcases hs.once id index with hrep | hle
    · exact .inl hrep
    · refine .inr ?_
      have hle : 0 + dueIn id index 0 (declaredAll rest ++ node.declared) +
        assignments store (.slot id index .const) accesses ≤ 1 := hle
      rw [dueIn_append] at hle
      show dueIn id index 0 node.declared + 0 + dueIn id index 0 (declaredAll rest) +
        assignments store (.slot id index .const) accesses ≤ 1
      omega
  | @call known args closure he hc hargs =>
    have hlive := hr.ended he
    have hcarries : Heap.Carries program ⟨a.regions, a.step.store⟩ [] := ⟨hr.step.sound, by simp⟩
    have hb : Moment.Right program { a with rest := [], known := known } :=
      ⟨⟨hr.step, hlive, by simp, hr.reaches⟩, hr.root⟩
    have hs' : Moment.Steady program { a with rest := [], known := known } := by
      refine ⟨fun id index => ?_, hs.assigned⟩
      rcases hs.once id index with hrep | hle
      · exact .inl hrep
      · refine .inr ?_
        show a.step.due id index + dueIn id index 0 [] +
          assignments a.step.store (.slot id index .const) a.accesses ≤ 1
        rw [dueIn_nil]
        omega
    refine hs'.after hp hb Machine.records_call fun id index limit _ hf => ?_
    exact pays_call hp hcarries (hlive _ hc) (Nat.zero_le _) hf

theorem steady_start (seeds : List (String × Value)) : (start program seeds).Steady program := by
  refine ⟨fun id index => .inr ?_, fun id index value h => ?_⟩
  · have ht : tally (declaredAll program.body) index ≤ 1 :=
      (Program.fits_of_resolve hp).tally_le_one index
    show 0 + dueIn id index 0 (declaredAll program.body) + 0 ≤ 1
    unfold dueIn
    split <;> omega
  · have h : ((Store.seeded seeds).openScope program.shape none).2.read (.slot id index .const) =
      some value := h
    rw [Store.read_openScope] at h
    simp [Store.read, Store.seeded] at h

/-- A slot that changes is assigned once more. -/
theorem assignments_lt_after {a : Moment} (hr : a.Right program) {step : Step} {trace : Trace}
    (hrec : Records a.step.store step trace.accesses) (id : ScopeId) (index : Nat)
    (slotClass : SlotClass) :
    step.store.read (.slot id index slotClass) = a.step.store.read (.slot id index slotClass) ∨
      assignments a.step.store (.slot id index slotClass) a.accesses <
        assignments step.store (.slot id index slotClass) (a.accesses ++ trace.accesses) := by
  rcases hrec.slots id index slotClass with hsame | ⟨access, hmem, ha⟩
  · exact .inl hsame
  · refine .inr ?_
    have hpos : 0 < assignments step.store (.slot id index slotClass) trace.accesses :=
      List.countP_pos_iff.2 ⟨access, hmem, ha⟩
    have hold : assignments step.store (.slot id index slotClass) a.accesses =
        assignments a.step.store (.slot id index slotClass) a.accesses :=
      assignments_later hp hrec.grows hr.reaches _
    rw [assignments_append, hold]
    omega

theorem Next.assignments_lt {a b : Moment} (hr : a.Right program) (h : Next a b) (id : ScopeId)
    (index : Nat) (slotClass : SlotClass) :
    b.step.store.read (.slot id index slotClass) = a.step.store.read (.slot id index slotClass) ∨
      assignments a.step.store (.slot id index slotClass) a.accesses <
        assignments b.step.store (.slot id index slotClass) b.accesses := by
  cases h with
  | @step m hm =>
    have hstore : a.step.store = m.store := by rw [hm]; rfl
    refine assignments_lt_after hp hr ?_ id index slotClass
    rw [hstore]
    exact Machine.records_step m
  | statement hd hrest =>
    rw [hd]
    exact .inl rfl
  | call => exact assignments_lt_after hp hr Machine.records_call id index slotClass

end Moment

theorem Session.steady {seeds : List (String × Value)} {a : Moment}
    (hseeds : PlainSeeds seeds) (h : Session program seeds a) :
    a.Steady program := by
  induction h with
  | refl => exact Moment.steady_start hp seeds
  | tail ha hn ih => exact ih.next hp (Session.right hp hseeds ha) hn

/-- A slot that is not repeated keeps the value it has. -/
theorem Session.read_eq {seeds : List (String × Value)} {a b : Moment}
    (hseeds : PlainSeeds seeds) (ha : Session program seeds a)
    (hab : Relation.ReflTransGen Moment.Next a b) {id : ScopeId} {index : Nat}
    (hr : ¬ Repeated program ⟨b.regions, b.step.store⟩ id index) {value : Value}
    (hv : a.step.store.read (.slot id index .const) = some value) :
    b.step.store.read (.slot id index .const) = some value := by
  induction hab with
  | refl => exact hv
  | @tail c b hac hcb ih =>
    have hc : Session program seeds c := Relation.ReflTransGen.trans ha hac
    have hvalue := ih fun hrep => hr (hrep.later hcb.later)
    have hassigned := (hc.steady hp hseeds).assigned id index value hvalue
    have hb : Session program seeds b := hc.tail hcb
    rcases (hb.steady hp hseeds).once id index with hrep | hle
    · exact (hr hrep).elim
    · rcases hcb.assignments_lt hp (hc.right hp hseeds) id index .const with hsame | hlt
      · rw [hsame, hvalue]
      · omega

end Sessions

/-- **Constants are constant.** Whatever a host does with a program that compiles, a constant's slot
of a scope is assigned at most once, and once it has a value it keeps it, unless the constant is
declared in the condition or the step of a loop, or in the default of a parameter. A function of an earlier
run has its constants in scopes of that run, so the global names are plain (`PlainSeeds`). -/
theorem Session.constant_once {source : String} {program : Program}
    {seeds : List (String × Value)} (hsource : compile source = .ok program)
    (hseeds : PlainSeeds seeds) {a b : Moment} (ha : Session program seeds a)
    (hab : Relation.ReflTransGen Moment.Next a b) {id : ScopeId} {index : Nat}
    (hr : ¬ Repeated program ⟨b.regions, b.step.store⟩ id index) :
    assignments b.step.store (.slot id index .const) b.accesses ≤ 1 ∧
      ∀ value, a.step.store.read (.slot id index .const) = some value →
        b.step.store.read (.slot id index .const) = some value := by
  obtain ⟨raw, hp⟩ := resolve_of_compile hsource
  have hb : Session program seeds b := Relation.ReflTransGen.trans ha hab
  refine ⟨?_, fun value hv => ha.read_eq hp hseeds hab hr hv⟩
  rcases (hb.steady hp hseeds).once id index with hrep | hle
  · exact (hr hrep).elim
  · omega

/-- A constant, and a function that reads it. -/
def Program.reader : Program where
  body := [.assign "x" ⟨.declare, .slot 0 0 .const⟩ .const none (.int 1 ⟨10, 11⟩) ⟨0, 11⟩,
    .define "anon#0" none [] (.block [.ident "x" ⟨.reference, .slot 1 0 .const⟩ ⟨21, 22⟩] ⟨19, 24⟩)
      ⟨.function, 0, 0⟩ ⟨13, 24⟩]
  shape := ⟨.program, 0, 1⟩

theorem Program.Occurs.of_reader {chain : List Region} {node : Node}
    (h : Program.reader.Occurs chain node) :
    node ∈ Program.reader.body ∨ node = .int 1 ⟨10, 11⟩ ∨
      node = .block [.ident "x" ⟨.reference, .slot 1 0 .const⟩ ⟨21, 22⟩] ⟨19, 24⟩ ∨
      node = .ident "x" ⟨.reference, .slot 1 0 .const⟩ ⟨21, 22⟩ := by
  induction h with
  | statement hmem => exact .inl hmem
  | part _ hpart ih =>
    simp only [Program.reader, List.mem_cons, List.not_mem_nil, or_false] at ih
    rcases ih with (rfl | rfl) | rfl | rfl | rfl <;>
      simp_all [Node.parts, Param.defaults]

theorem Program.not_repeats_reader (chain : List Region) (declaration : Declaration) :
    ¬ Program.reader.Repeats chain declaration := by
  intro h
  cases h with
  | whileCond ho _ => simpa [Program.reader] using ho.of_reader
  | forCond ho _ => simpa [Program.reader] using ho.of_reader
  | forStep ho _ => simpa [Program.reader] using ho.of_reader
  | default ho hmem =>
    have hparams := ho.of_reader
    simp only [Program.reader, List.mem_cons, Node.define.injEq, List.not_mem_nil, reduceCtorEq,
      or_false, false_or] at hparams
    rw [hparams.2.2.1] at hmem
    cases hmem

/-- The constant of `Program.reader` at the end of its run, and when the host calls the function. -/
theorem Session.constant_once_reader : ∃ a b,
    compile "const x = 1; def() { x }" = .ok Program.reader ∧ Session Program.reader [] a ∧
    Relation.ReflTransGen Moment.Next a b ∧
    ¬ Repeated Program.reader ⟨b.regions, b.step.store⟩ 0 0 ∧
    assignments b.step.store (.slot 0 0 .const) b.accesses ≤ 1 ∧
    b.step.store.read (.slot 0 0 .const) = some (.int 1) := by
  have hsource : compile "const x = 1; def() { x }" = .ok Program.reader := by cbv
  have hi : Program.reader.interpret 9 [] = (.value (.function ⟨0, "anon#0", [],
      .block [.ident "x" ⟨.reference, .slot 1 0 .const⟩ ⟨21, 22⟩] ⟨19, 24⟩, ⟨.function, 0, 0⟩, 0,
      ⟨13, 24⟩⟩), (Program.reader.interpret 9 []).2) := rfl
  obtain ⟨a, ha, hshows⟩ := (HostRun.interpret hi (by simp)).session
  have hread : a.step.store.read (.slot 0 0 .const) = some (.int 1) := by
    rw [hshows.store]
    rfl
  have hargs : ∀ known : List Value, ∀ arg ∈ ([] : List Value), arg.isPlain ∨ arg ∈ known := by
    simp
  have hab := Relation.ReflTransGen.single
    (Moment.Next.call hshows.known List.mem_cons_self (hargs _))
  have hr : ∀ heap, ¬ Repeated Program.reader heap 0 0 := by
    rintro heap ⟨chain, name, -, hrep⟩
    exact Program.not_repeats_reader _ _ hrep
  obtain ⟨honce, hkeeps⟩ := Session.constant_once hsource (by decide) ha hab (hr _)
  exact ⟨a, _, hsource, ha, hab, hr _, honce, hkeeps _ hread⟩

/-- The truth value that a run or a call ended with. -/
def Ending.truth? : Ending → Option Bool
  | .value (.bool b) => some b
  | _ => none

theorem Ending.eq_value_of_truth? {ending : Ending} {b : Bool} (h : ending.truth? = some b) :
    ending = .value (.bool b) := by
  cases ending with
  | value value =>
    cases value with
    | bool c => rw [Option.some.inj h]
    | _ => cases h
  | _ => cases h

/-- In the condition of a loop, a constant does change: `a` is what it was when the round began, and
`f` reads it after the loop. -/
theorem HostRun.constant_changes : ∃ program store,
    compile "a = 0; f = 0; while (const c = a == 0) { a = c; f = def() { c } }; a == f()" =
      .ok program ∧ HostRun program [] store [.bool false] (.value (.bool false)) := by
  have hrun : (compile
      "a = 0; f = 0; while (const c = a == 0) { a = c; f = def() { c } }; a == f()").toOption.any
      (fun program => (program.interpret 40 []).1.truth? = some false) = true := by
    decide +kernel
  obtain ⟨program, h⟩ : ∃ program,
      compile "a = 0; f = 0; while (const c = a == 0) { a = c; f = def() { c } }; a == f()" =
        .ok program := compile_ok_of_isOk (by decide +kernel)
  rw [h] at hrun
  have hvalue := Ending.eq_value_of_truth? (of_decide_eq_true hrun)
  have hi : program.interpret 40 [] = (.value (.bool false), (program.interpret 40 []).2) :=
    Prod.ext hvalue rfl
  exact ⟨program, _, h, .interpret hi (by simp)⟩

end SlotScript
