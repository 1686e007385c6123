import Mathlib.Logic.Relation
import SlotScript.Machine.Interpret
import SlotScript.Proofs.Machine.Operation
import SlotScript.Proofs.Scope.Region

/-!
# Sessions: a program's run and the calls after it

A host runs a program and then calls the functions it was given, as often as it likes, with
plain values and with functions it was given. `HostRun` says this in terms of what the host can
do: `Program.interpret` once, then `Closure.call`.

Statements about everything that happens on the way need the single steps. A `Moment` is where
the machine stands, with what the host knows and with a record of the session so far: for which
region each scope was opened, and which variables were read and written. `Moment.Next` is one
step of the machine, the next statement of the program, or a call by the host, and `Session` is
any number of these. The record follows the machine's own functions one by one
(`Machine.trace`); it is never read by a step.

`HostRun.session` ties the two: what a host sees is seen at some moment of a session.
-/

namespace SlotScript

/-- The values that a host is given. -/
def Ending.values : Ending → List Value
  | .value v => [v]
  | _ => []

/-- The global names that a host gives are plain: no value of them is a function. A session starts from a
store without scopes and has one table of global names. A function that a host could give was made by an
earlier run: it keeps to the scopes of that run, and to its table. Runs that hand on functions are the
subject of `History`. -/
def PlainSeeds (seeds : List (String × Value)) : Prop := ∀ seed ∈ seeds, seed.2.isPlain

instance (seeds : List (String × Value)) : Decidable (PlainSeeds seeds) :=
  inferInstanceAs (Decidable (∀ seed ∈ seeds, seed.2.isPlain))

/-- A program is run, and then any functions that this gave are called. The store, the values
that the host has been given, and how the last run or call ended. -/
inductive HostRun (program : Program) (seeds : List (String × Value)) :
    Store → List Value → Ending → Prop
  | interpret {limit : Nat} {ending : Ending} {store : Store} :
      program.interpret limit seeds = (ending, store) → ending ≠ .unfinished →
      HostRun program seeds store ending.values ending
  | call {limit : Nat} {store after : Store} {known args : List Value} {before ending : Ending}
      {closure : Closure} :
      HostRun program seeds store known before → .function closure ∈ known →
      (∀ arg ∈ args, arg.isPlain ∨ arg ∈ known) →
      closure.call limit args store = (ending, after) → ending ≠ .unfinished →
      HostRun program seeds after (ending.values ++ known) ending

/-! ## The record of a step -/

/-- A use of a variable. -/
structure Access where
  /-- The name that the program uses. -/
  name : String
  /-- Where the variable is found. -/
  place : Place
  /-- The scope that the place is seen from. -/
  scope : ScopeId
  /-- Whether the variable is assigned; otherwise it is read. -/
  assigns : Bool
deriving DecidableEq, Repr

/-- What a step does besides going on: the regions that it opens scopes for, in order, and the
variables that it uses. -/
structure Trace where
  opened : List Region := []
  accesses : List Access := []

/-- The region that a call of the function opens a scope for. -/
def Closure.region (closure : Closure) : Region := .ofFunction closure.params closure.body

/-- Arguments go to the parameters' slots in order. -/
def paramAccesses (frame : ScopeId) : (slot : Nat) → List Param → List Value → List Access
  | slot, param :: params, _ :: args =>
    ⟨param.name, .slot 0 slot .var, frame, true⟩ :: paramAccesses frame (slot + 1) params args
  | _, _, _ => []

theorem paramAccesses_nil (frame : ScopeId) (slot : Nat) (params : List Param) :
    paramAccesses frame slot params [] = [] := by
  cases params <;> rfl

namespace Machine

/-- The record of `call`. -/
def callTrace (closure : Closure) (args : List Value) (store : Store) : Trace :=
  if closure.params.length < args.length then {}
  else
    { opened := [closure.region]
      accesses := paramAccesses store.scopes.size 0 closure.params args }

/-- The record of `callArgs`. -/
def callArgsTrace (closure : Closure) (done : List Value) (args : List Node) (store : Store) :
    Trace :=
  match args with
  | [] => callTrace closure done.reverse store
  | _ :: _ => {}

/-- The record of `define`. -/
def defineTrace (name : String) (binding : Option VarRef) (scope : ScopeId) : Trace :=
  match binding with
  | none => {}
  | some var => { accesses := [⟨name, var.place, scope, true⟩] }

/-- The record of `loopRound`. -/
def loopRoundTrace (loop : Loop) : Trace :=
  match loop.cond with
  | some _ => {}
  | none => { opened := [.ofBody loop.body] }

/-- The record of `loopNext`. -/
def loopNextTrace (loop : Loop) : Trace :=
  match loop.step with
  | some _ => {}
  | none => loopRoundTrace loop

/-- The record of `takeBranch`. -/
def takeBranchTrace (test : Bool) (yes : Node) (no : Option Node) : Trace :=
  match test, no with
  | true, _ => { opened := [.ofBody yes] }
  | false, some no => { opened := [.ofBody no] }
  | false, none => {}

/-- The record of `updateVar`: nothing is assigned if the old value or the operator fails. -/
def updateTrace (name : String) (place : Place) (op : BinaryOp) (value : Value)
    (scope : ScopeId) (store : Store) : Trace :=
  match store.lookup scope place name with
  | .error _ => { accesses := [⟨name, place, scope, false⟩] }
  | .ok current =>
    match applyBinary current value op with
    | .error _ => { accesses := [⟨name, place, scope, false⟩] }
    | .ok _ => { accesses := [⟨name, place, scope, false⟩, ⟨name, place, scope, true⟩] }

/-- The record of `start`. -/
def startTrace (node : Node) (scope : ScopeId) : Trace :=
  match node with
  | .ident name var _ => { accesses := [⟨name, var.place, scope, false⟩] }
  | .whileLoop cond body _ _ _ => { opened := [.ofHeader none (some cond) none body] }
  | .forLoop init cond step body _ bodyShape _ =>
    let header := Region.ofHeader init cond step body
    match init with
    | some _ => { opened := [header] }
    | none => { opened := header :: (loopRoundTrace ⟨cond, step, body, bodyShape, scope⟩).opened }
  | .define name binding _ _ _ _ => defineTrace name binding scope
  | _ => {}

/-- The record of `resume`. -/
def resumeTrace (waiting : Waiting) (value : Value) (store : Store) : Trace :=
  match waiting, value with
  | .assign target place none scope _, _ => { accesses := [⟨target, place, scope, true⟩] }
  | .assign target place (some op) scope _, value => updateTrace target place op value scope store
  | .branch _ yes no _ _ _, .bool test => takeBranchTrace test yes no
  | .loopInit loop, _ => loopRoundTrace loop
  | .loopCond loop _ _, .bool true => { opened := [.ofBody loop.body] }
  | .loopBody loop _, _ => loopNextTrace loop
  | .loopStep loop _, _ => loopRoundTrace loop
  | .callee _ args _ _, .function closure => callArgsTrace closure [] args store
  | .argument closure done rest _ _, value => callArgsTrace closure (value :: done) rest store
  | .default _ frame slot name _ _, _ => { accesses := [⟨name, .slot 0 slot .var, frame, true⟩] }
  | _, _ => {}

/-- The record of `unwind`. -/
def unwindTrace (waiting : Waiting) (flow : Flow) (store : Store) : Trace :=
  match waiting, flow with
  | .loopBody loop _, .continueLoop => loopNextTrace loop
  | .default closure frame slot name rest site, .ret value =>
    resumeTrace (.default closure frame slot name rest site) value store
  | _, _ => {}

/-- The record of `step`. -/
def trace (m : Machine) : Trace :=
  match m.control, m.stack with
  | .eval node scope, _ => startTrace node scope
  | .deliver _, [] => {}
  | .deliver (.normal value), waiting :: _ => resumeTrace waiting value m.store
  | .deliver flow, waiting :: _ => unwindTrace waiting flow m.store

end Machine

/-- The store that a step leads to. -/
def Step.store : Step → Store
  | .next m => m.store
  | .done _ store => store
  | .failed _ store => store

/-! ## Moments -/

/-- A moment of a session. -/
structure Moment where
  /-- Where the machine stands. -/
  step : Step
  /-- The statements of the program that are still to run. -/
  rest : List Node
  /-- The values that the host has been given. -/
  known : List Value
  /-- The regions that scopes were opened for, by the number of the scope. -/
  regions : List Region
  /-- The variables that were used so far. -/
  accesses : List Access

namespace Moment

/-- The program is about to run. -/
def start (program : Program) (seeds : List (String × Value)) : Moment where
  step := .done (.normal .null) ((Store.seeded seeds).openScope program.shape none).2
  rest := program.body
  known := []
  regions := [.ofProgram program]
  accesses := []

/-- The moment after a step with the given record. -/
def after (a : Moment) (step : Step) (trace : Trace) : Moment :=
  { a with
    step := step, regions := a.regions ++ trace.opened, accesses := a.accesses ++ trace.accesses }

/-- If the program or the call has ended, the values that the host knows then. -/
def ended? (a : Moment) : Option (List Value) :=
  match a.step, a.rest with
  | .next _, _ => none
  | .done (.normal _) _, _ :: _ => none
  | .done (.normal value) _, [] => some (value :: a.known)
  | .done (.ret value) _, _ => some (value :: a.known)
  | .done .breakLoop _, _ | .done .continueLoop _, _ => some a.known
  | .failed _ _, _ => some a.known

/-- What can come next. -/
inductive Next : Moment → Moment → Prop
  /-- The machine takes a step. -/
  | step {a : Moment} {m : Machine} : a.step = .next m → Next a (a.after m.step m.trace)
  /-- The next statement of the program starts. -/
  | statement {a : Moment} {value : Value} {store : Store} {node : Node} {rest : List Node} :
      a.step = .done (.normal value) store → a.rest = node :: rest →
      Next a { a with step := .next ⟨.eval node 0, [], store⟩, rest := rest }
  /-- The host calls a function. -/
  | call {a : Moment} {known args : List Value} {closure : Closure} :
      a.ended? = some known → .function closure ∈ known →
      (∀ arg ∈ args, arg.isPlain ∨ arg ∈ known) →
      Next a (Moment.after { a with rest := [], known := known }
        (Machine.call closure args none [] a.step.store)
        (Machine.callTrace closure args a.step.store))

end Moment

/-- A moment of a session that runs the program. -/
def Session (program : Program) (seeds : List (String × Value)) (a : Moment) : Prop :=
  Relation.ReflTransGen Moment.Next (.start program seeds) a

/-! ## What a host sees -/

/-- The step that a finished run ended with. -/
def Outcome.step? : Outcome → Option Step
  | .finished flow store => some (.done flow store)
  | .failed error store => some (.failed error store)
  | .unfinished _ => none

/-- The error that a host is given for a `break` or `continue` that nothing stopped. -/
def RunError.Escaped (e : RunError) : Prop :=
  e.fault = .impossible .loopControlAtTop ∨ e.fault = .impossible .loopControlInBody

/-- The moment at which a host sees the ending, and knows the values. -/
structure Moment.Shows (a : Moment) (s : Store) (values : List Value) (ending : Ending) : Prop where
  store : a.step.store = s
  known : a.ended? = some values
  /-- An error is the machine's, or a `break` or `continue` that nothing stopped. -/
  error : ∀ e, ending = .error e → a.step = .failed e s ∨
    e.Escaped ∧ (a.step = .done .breakLoop s ∨ a.step = .done .continueLoop s)

namespace Moment

variable {a : Moment} {store : Store}

theorem shows_normal {value : Value} (h : a.step = .done (.normal value) store)
    (hr : a.rest = []) : a.Shows store (value :: a.known) (.value value) :=
  ⟨by rw [h]; rfl, by simp [ended?, h, hr], fun _ he => by cases he⟩

theorem shows_ret {value : Value} (h : a.step = .done (.ret value) store) :
    a.Shows store (value :: a.known) (.value value) :=
  ⟨by rw [h]; rfl, by simp [ended?, h], fun _ he => by cases he⟩

theorem shows_failed {e : RunError} (h : a.step = .failed e store) :
    a.Shows store a.known (.error e) :=
  ⟨by rw [h]; rfl, by simp [ended?, h], fun _ he => by cases he; exact .inl h⟩

theorem shows_breakLoop (h : a.step = .done .breakLoop store) {e : RunError} (he : e.Escaped) :
    a.Shows store a.known (.error e) :=
  ⟨by rw [h]; rfl, by simp [ended?, h], fun _ hf => by cases hf; exact .inr ⟨he, .inl h⟩⟩

theorem shows_continueLoop (h : a.step = .done .continueLoop store) {e : RunError}
    (he : e.Escaped) : a.Shows store a.known (.error e) :=
  ⟨by rw [h]; rfl, by simp [ended?, h], fun _ hf => by cases hf; exact .inr ⟨he, .inr h⟩⟩

end Moment

variable {program : Program} {seeds : List (String × Value)}

theorem Session.runAfter {limit : Nat} {a : Moment} {first last : Step}
    (ha : Session program seeds a) (hs : a.step = first)
    (h : (Machine.runAfter limit first).step? = some last) :
    ∃ b, Session program seeds b ∧ b.step = last ∧ b.rest = a.rest ∧ b.known = a.known := by
  induction limit generalizing a first with
  | zero =>
    cases first with
    | next m => cases h
    | done flow store => cases h; exact ⟨a, ha, hs, rfl, rfl⟩
    | failed error store => cases h; exact ⟨a, ha, hs, rfl, rfl⟩
  | succ limit ih =>
    cases first with
    | next m =>
      -- the first of `limit + 1` steps leads to a run of `limit` steps
      have hb : Session program seeds (a.after m.step m.trace) := ha.tail (.step hs)
      have hrun : Machine.runAfter (limit + 1) (.next m) = Machine.runAfter limit m.step := rfl
      rw [hrun] at h
      obtain ⟨b, hb⟩ := ih hb rfl h
      exact ⟨b, hb⟩
    | done flow store => cases h; exact ⟨a, ha, hs, rfl, rfl⟩
    | failed error store => cases h; exact ⟨a, ha, hs, rfl, rfl⟩

theorem Session.runStatements {limit : Nat} {statements : List Node} {last : Value}
    {store after : Store} {ending : Ending} {a : Moment} (ha : Session program seeds a)
    (hs : a.step = .done (.normal last) store) (hr : a.rest = statements)
    (h : runStatements limit 0 last statements store = (ending, after))
    (hf : ending ≠ .unfinished) :
    ∃ b, Session program seeds b ∧ b.Shows after (ending.values ++ a.known) ending := by
  induction statements generalizing a last store with
  | nil =>
    cases h
    exact ⟨a, ha, Moment.shows_normal hs hr⟩
  | cons node rest ih =>
    have hb : Session program seeds
        { a with step := .next ⟨.eval node 0, [], store⟩, rest := rest } :=
      ha.tail (.statement hs hr)
    have hrun : Machine.evaluate limit node 0 store =
        Machine.runAfter limit (.next ⟨.eval node 0, [], store⟩) := rfl
    rw [SlotScript.runStatements, hrun] at h
    cases ho : Machine.runAfter limit (.next ⟨.eval node 0, [], store⟩) with
    | unfinished m => rw [ho] at h; cases h; exact (hf rfl).elim
    | failed error store' =>
      obtain ⟨b, hb, hstep, -, hk⟩ := hb.runAfter rfl (by rw [ho]; rfl)
      rw [ho] at h
      cases h
      exact ⟨b, hb, hk ▸ Moment.shows_failed hstep⟩
    | finished flow store' =>
      obtain ⟨b, hb, hstep, hrest, hk⟩ := hb.runAfter rfl (by rw [ho]; rfl)
      rw [ho] at h
      cases flow with
      | normal value =>
        obtain ⟨c, hc, hshows⟩ := ih hb hstep hrest h
        exact ⟨c, hc, hk ▸ hshows⟩
      | ret value => cases h; exact ⟨b, hb, hk ▸ Moment.shows_ret hstep⟩
      | breakLoop => cases h; exact ⟨b, hb, hk ▸ Moment.shows_breakLoop hstep (.inl rfl)⟩
      | continueLoop => cases h; exact ⟨b, hb, hk ▸ Moment.shows_continueLoop hstep (.inl rfl)⟩

theorem Session.call {limit : Nat} {a : Moment} {closure : Closure} {known args : List Value}
    {ending : Ending} {after : Store} (ha : Session program seeds a)
    (he : a.ended? = some known) (hc : .function closure ∈ known)
    (hargs : ∀ arg ∈ args, arg.isPlain ∨ arg ∈ known)
    (h : closure.call limit args a.step.store = (ending, after)) (hf : ending ≠ .unfinished) :
    ∃ b, Session program seeds b ∧ b.Shows after (ending.values ++ known) ending := by
  have hb : Session program seeds _ := ha.tail (Moment.Next.call he hc hargs)
  have hend : ∀ last, (Machine.runAfter limit
      (Machine.call closure args none [] a.step.store)).step? = some last →
      ∃ b, Session program seeds b ∧ b.step = last ∧ b.rest = [] ∧ b.known = known :=
    fun last hlast => hb.runAfter rfl hlast
  rw [Closure.call] at h
  cases ho : Machine.runAfter limit (Machine.call closure args none [] a.step.store) with
  | unfinished m => rw [ho] at h; cases h; exact (hf rfl).elim
  | failed error store' =>
    obtain ⟨b, hb, hstep, -, hk⟩ := hend _ (by rw [ho]; rfl)
    rw [ho] at h
    cases h
    exact ⟨b, hb, hk ▸ Moment.shows_failed hstep⟩
  | finished flow store' =>
    obtain ⟨b, hb, hstep, hrest, hk⟩ := hend _ (by rw [ho]; rfl)
    rw [ho] at h
    cases flow with
    | normal value => cases h; exact ⟨b, hb, hk ▸ Moment.shows_normal hstep hrest⟩
    | ret value => cases h; exact ⟨b, hb, hk ▸ Moment.shows_ret hstep⟩
    | breakLoop => cases h; exact ⟨b, hb, hk ▸ Moment.shows_breakLoop hstep (.inr rfl)⟩
    | continueLoop => cases h; exact ⟨b, hb, hk ▸ Moment.shows_continueLoop hstep (.inr rfl)⟩

/-- **What a host sees is seen at a moment of a session.** -/
theorem HostRun.session {store : Store} {known : List Value} {ending : Ending}
    (h : HostRun program seeds store known ending) :
    ∃ a, Session program seeds a ∧ a.Shows store known ending := by
  induction h with
  | interpret h hf =>
    have hstart : Session program seeds (.start program seeds) := .refl
    have := hstart.runStatements rfl rfl h hf
    rwa [show (Moment.start program seeds).known = [] from rfl, List.append_nil] at this
  | call _ hc hargs h hf ih =>
    obtain ⟨a, ha, hshows⟩ := ih
    rw [← hshows.store] at h
    exact ha.call hshows.known hc hargs h hf

end SlotScript
