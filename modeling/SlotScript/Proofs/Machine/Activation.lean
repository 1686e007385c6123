import SlotScript.Proofs.Machine.Address
import SlotScript.Proofs.Machine.Pending

/-!
# Activations have scopes of their own

A program that starts, a call, a loop, a branch that is taken and a round of a loop each run in a scope
that is opened for them. `Step.Move` is whatever can happen to a store: a step of the machine, and, when
it stands still, a program that starts, a node that is evaluated in one of the scopes, or a function that
is called from outside. `Step.Begins` says which scope a move begins an activation in, and `Step.Enters`
where the body of a function starts; both are read off where the machine stands after the move.

**Theorem (`Store.activations_separate`).** Whatever happens to a store that mentions only its own scopes:
the scopes stay as they were opened, what has a value keeps having one, and the table of global names
loses no name. An activation begins in a scope that was not there before, and all of its slots are empty,
except those of the arguments of a call. No two activations ever begin in the same scope. When the body of
a function starts, only the parameters have values in its scope. All runs of programs, evaluations and
calls are made of such moves.

Most of this holds of every move, since a scope that is opened has the next number. Between the beginning
of a call and its body any code may run, in the defaults; that it leaves the scope of the call alone is
what sealed machines are for (`Step.Sealed.step`).
-/

namespace SlotScript

open Relation (ReflTransGen)

/-- What runs in a scope of its own. -/
inductive Activation where
  | program | loop | round | branch | call
deriving DecidableEq, Repr

/-- Whether the node is a loop. -/
def Node.isLoop : Node → Bool
  | .whileLoop .. | .forLoop .. => true
  | _ => false

/-- The loop that waits. -/
def Waiting.loop? : Waiting → Option Loop
  | .loopInit loop | .loopCond loop _ _ | .loopBody loop _ | .loopStep loop _ => some loop
  | _ => none

namespace Machine

/-- The function that a step calls, with the arguments. -/
def calls? (m : Machine) : Option (Closure × List Value) :=
  match m.control, m.stack with
  | .deliver (.normal value), .callee _ [] _ _ :: _ =>
    match value with
    | .function closure => some (closure, [])
    | _ => none
  | .deliver (.normal value), .argument closure done [] _ _ :: _ => some (closure, (value :: done).reverse)
  | _, _ => none

/-- The scope of the call that the machine goes on with: of its body, or of the default that runs. -/
def frame? (m : Machine) : Option ScopeId :=
  match m.control, m.stack with
  | .eval _ scope, .body _ :: _ => some scope
  | _, .default _ frame _ _ _ _ :: _ => some frame
  | _, _ => none

end Machine

namespace Step

/-- Nothing runs. -/
def isEnded : Step → Bool
  | .next _ => false
  | .done _ _ | .failed _ _ => true

/-- What can happen to a store. -/
inductive Move : Step → Step → Prop
  /-- The machine takes a step. -/
  | step {m : Machine} : Move (.next m) m.step
  /-- A program starts. -/
  | program {s : Step} {shape : Shape} : s.isEnded →
      Move s (.done (.normal .null) (s.store.openScope shape none).2)
  /-- A node is evaluated in one of the scopes. -/
  | eval {s : Step} {node : Node} {scope : ScopeId} : s.isEnded → scope < s.store.scopes.size →
      Move s (.eval node scope [] s.store)
  /-- A function is called. -/
  | call {s : Step} {closure : Closure} {args : List Value} : s.isEnded →
      closure.captured < s.store.scopes.size →
      (∀ arg ∈ args, arg.Confined (· < s.store.scopes.size)) →
      Move s (Machine.call closure args none [] s.store)

/-- The move from `s` begins an activation in the scope, with values for the first `bound` of its
variables at most. -/
inductive Begins (s : Step) : Step → Activation → (bound : Nat) → ScopeId → Prop
  | program {shape : Shape} : s.isEnded →
      Begins s (.done (.normal .null) (s.store.openScope shape none).2) .program 0
        (s.store.openScope shape none).1
  | loop {m next : Machine} {node : Node} {outer : ScopeId} {top : Waiting} {loop : Loop} :
      s = .next m → m.step = .next next → m.control = .eval node outer → node.isLoop →
      next.stack = top :: m.stack → top.loop? = some loop → Begins s (.next next) .loop 0 loop.header
  /-- The round comes after something else of the loop. -/
  | round {m next : Machine} {flow : Flow} {top : Waiting} {loop found : Loop} {last : Value}
      {rest : List Waiting} {node : Node} {id : ScopeId} :
      s = .next m → m.step = .next next → m.control = .deliver flow →
      m.stack = top :: rest → top.loop? = some loop →
      next.stack = .loopBody found last :: rest → next.control = .eval node id →
      Begins s (.next next) .round 0 id
  /-- The loop starts with a round. -/
  | firstRound {m next : Machine} {node body : Node} {outer id : ScopeId} {loop : Loop} {last : Value} :
      s = .next m → m.step = .next next → m.control = .eval node outer → node.isLoop →
      next.stack = .loopBody loop last :: m.stack → next.control = .eval body id →
      Begins s (.next next) .round 0 id
  | branch {m next : Machine} {value : Value} {condSpan : Span} {yes : Node} {no : Option Node}
      {yesShape noShape : Shape} {scope : ScopeId} {rest : List Waiting} {node : Node} {id : ScopeId} :
      s = .next m → m.step = .next next → m.control = .deliver (.normal value) →
      m.stack = .branch condSpan yes no yesShape noShape scope :: rest →
      next.control = .eval node id → Begins s (.next next) .branch 0 id
  | call {m next : Machine} {closure : Closure} {args : List Value} {frame : ScopeId} :
      s = .next m → m.step = .next next → m.calls? = some (closure, args) →
      next.frame? = some frame → Begins s (.next next) .call args.length frame
  /-- The function is called from outside. -/
  | host {next : Machine} {closure : Closure} {args : List Value} {frame : ScopeId} :
      s.isEnded → Machine.call closure args none [] s.store = .next next →
      next.frame? = some frame → Begins s (.next next) .call args.length frame

/-- The move from `s` starts the body of the function in the scope. -/
inductive Enters (s : Step) : Step → Closure → ScopeId → Prop
  | step {m next : Machine} {closure : Closure} {site : Option Span} {rest : List Waiting} {node : Node}
      {frame : ScopeId} :
      s = .next m → m.step = .next next → m.calling? = some closure →
      next.stack = .body site :: rest → next.control = .eval node frame →
      Enters s (.next next) closure frame
  | host {next : Machine} {closure : Closure} {args : List Value} {site : Option Span}
      {rest : List Waiting} {node : Node} {frame : ScopeId} :
      s.isEnded → Machine.call closure args none [] s.store = .next next →
      next.stack = .body site :: rest → next.control = .eval node frame →
      Enters s (.next next) closure frame

/-- What a move does to the scopes. -/
structure Fresh (s s' : Step) : Prop where
  keeps : s.store.Keeps s'.store
  /-- An activation begins in a scope that was not there, with nothing in it but arguments. -/
  begins : ∀ {activation bound id}, Begins s s' activation bound id →
    s.store.scopes[id]? = none ∧ (∃ scope, s'.store.scopes[id]? = some scope) ∧
      s'.store.BoundBelow id bound
  /-- Every loop that starts, and every call that the machine goes on with, begins an activation. -/
  loops : ∀ {m next node outer}, s = .next m → s' = .next next → m.control = .eval node outer →
    node.isLoop → ∃ id, Begins s s' .loop 0 id
  calls : ∀ {m next closure args}, s = .next m → s' = .next next → m.calls? = some (closure, args) →
    ∃ frame, Begins s s' .call args.length frame
  /-- Two activations that begin at once have two scopes. -/
  apart : ∀ {activation other bound bound' id}, Begins s s' activation bound id →
    Begins s s' other bound' id → activation = other
  /-- A body starts in a scope with nothing in it but the parameters. -/
  enters : ∀ {closure frame}, Enters s s' closure frame →
    s'.store.BoundBelow frame closure.params.length
  /-- A call that has waited for a default goes on in the scope that it began in. -/
  carries : ∀ {m next closure frame slot name rest site below found}, s = .next m → s' = .next next →
    m.stack = .default closure frame slot name rest site :: below → m.calling?.isSome →
    next.frame? = some found → found = frame

end Step

/-! ## Scopes that are opened empty -/

namespace Store

variable {store : Store} {frame : ScopeId} {count more : Nat}

theorem BoundBelow.mono (h : store.BoundBelow frame count) (hle : count ≤ more) :
    store.BoundBelow frame more := by
  intro index slotClass value hread
  obtain ⟨hclass, hlt⟩ := h index slotClass value hread
  exact ⟨hclass, Nat.lt_of_lt_of_le hlt hle⟩

/-- The scopes are new, and nothing is written. -/
structure Opens (store after : Store) (id : ScopeId) : Prop where
  new : store.scopes.size ≤ id
  found : id < after.scopes.size
  same : ∀ cell, after.read cell = store.read cell

theorem Opens.fresh {after : Store} {id : ScopeId} (h : store.Opens after id) :
    store.scopes[id]? = none ∧ (∃ scope, after.scopes[id]? = some scope) ∧ after.BoundBelow id 0 := by
  refine ⟨Array.getElem?_eq_none h.new, ⟨_, Array.getElem?_eq_getElem h.found⟩, ?_⟩
  intro index slotClass value hread
  rw [h.same] at hread
  exact absurd (lt_size_of_read hread) (Nat.not_lt_of_le h.new)

theorem opens_openScope (store : Store) (shape : Shape) (parent : Option ScopeId) :
    store.Opens (store.openScope shape parent).2 store.scopes.size :=
  ⟨Nat.le_refl _, by simp, store.read_openScope shape parent⟩

/-- A closed store is still closed when a program has started. -/
theorem Closed.openScope (h : store.Closed) (shape : Shape) :
    (store.openScope shape none).2.Closed where
  grown := Nat.le_refl _
  parent := by
    intro id scope outer _ hscope houter
    have hscope : (store.scopes.push (.ofShape shape none))[id]? = some scope := hscope
    rw [Array.getElem?_push] at hscope
    split at hscope
    · cases hscope
      cases houter
    · exact Nat.lt_of_lt_of_le (h.parent_lt hscope houter) (by simp)
  values := by
    intro cell value _ hread
    rw [read_openScope] at hread
    exact (h.value hread).widen fun id hid => Nat.lt_of_lt_of_le hid (by simp)
  rest := fun _ _ => rfl

end Store

theorem Store.Opens.after {store after : Store} {shape : Shape} {parent : Option ScopeId}
    {id : ScopeId} (h : (store.openScope shape parent).2.Opens after id) : store.Opens after id := by
  refine ⟨?_, h.found, fun cell => (h.same cell).trans (store.read_openScope shape parent cell)⟩
  have hnew := h.new
  rw [Store.size_openScope] at hnew
  exact Nat.le_of_succ_le hnew

theorem Store.Opens.before {store after : Store} {id : ScopeId} (h : store.Opens after id)
    (shape : Shape) (parent : Option ScopeId) : store.Opens (after.openScope shape parent).2 id := by
  refine ⟨h.new, ?_, fun cell => (after.read_openScope shape parent cell).trans (h.same cell)⟩
  rw [Store.size_openScope]
  exact Nat.lt_succ_of_lt h.found

namespace Machine

variable {m next : Machine} {store : Store} {stack : List Waiting}

/-! ## Where activations begin -/

/-- A loop that goes on with a round opens the next scope for it. -/
theorem opens_loopRound {loop : Loop} {last : Value} {found : Loop} {last' : Value}
    {rest : List Waiting} {node : Node} {id : ScopeId}
    (hn : loopRound loop last stack store = .next next) (hstack : next.stack = .loopBody found last' :: rest)
    (hcontrol : next.control = .eval node id) : id = store.scopes.size ∧ store.Opens next.store id := by
  rw [loopRound] at hn
  split at hn
  · cases hn
    cases hstack
  · cases hn
    cases hcontrol
    exact ⟨rfl, store.opens_openScope loop.bodyShape (some loop.header)⟩

theorem opens_loopNext {loop : Loop} {last : Value} {found : Loop} {last' : Value}
    {rest : List Waiting} {node : Node} {id : ScopeId}
    (hn : loopNext loop last stack store = .next next) (hstack : next.stack = .loopBody found last' :: rest)
    (hcontrol : next.control = .eval node id) : id = store.scopes.size ∧ store.Opens next.store id := by
  rw [loopNext] at hn
  split at hn
  · cases hn
    cases hstack
  · exact opens_loopRound hn hstack hcontrol

theorem opens_round {flow : Flow} {top : Waiting} {loop found : Loop} {last : Value}
    {rest : List Waiting} {node : Node} {id : ScopeId} (hn : m.step = .next next)
    (hflow : m.control = .deliver flow) (hm : m.stack = top :: rest) (htop : top.loop? = some loop)
    (hstack : next.stack = .loopBody found last :: rest) (hcontrol : next.control = .eval node id) :
    m.store.Opens next.store id := by
  obtain ⟨control, stack, store⟩ := m
  cases hflow
  cases hm
  -- a flow that is handed on evaluates nothing
  have hdeliver : ∀ {flow}, Step.deliver flow rest store ≠ .next next := by
    rintro flow ⟨⟩
    cases hcontrol
  cases top with
  | loopInit loop' =>
    cases flow with
    | normal value => exact (opens_loopRound hn hstack hcontrol).2
    | _ => exact absurd hn hdeliver
  | loopCond loop' last' condSpan =>
    cases flow with
    | normal value =>
      cases value with
      | bool test =>
        cases test with
        | true =>
          cases hn
          cases hcontrol
          exact store.opens_openScope loop'.bodyShape (some loop'.header)
        | false => exact absurd hn hdeliver
      | _ => cases hn
    | _ => exact absurd hn hdeliver
  | loopBody loop' last' =>
    cases flow with
    | normal value => exact (opens_loopNext hn hstack hcontrol).2
    | continueLoop => exact (opens_loopNext hn hstack hcontrol).2
    | _ => exact absurd hn hdeliver
  | loopStep loop' last' =>
    cases flow with
    | normal value => exact (opens_loopRound hn hstack hcontrol).2
    | _ => exact absurd hn hdeliver
  | _ => cases htop

/-- A loop that starts opens the next scope for its header. -/
theorem opens_loop {node : Node} {outer : ScopeId} {top : Waiting} {loop : Loop}
    (hn : m.step = .next next) (hnode : m.control = .eval node outer) (hloop : node.isLoop)
    (hstack : next.stack = top :: m.stack) (htop : top.loop? = some loop) :
    loop.header = m.store.scopes.size ∧ m.store.Opens next.store loop.header := by
  obtain ⟨control, stack, store⟩ := m
  cases hnode
  cases node with
  | whileLoop cond body header bodyShape span =>
    cases hn
    cases hstack
    cases htop
    exact ⟨rfl, store.opens_openScope header (some outer)⟩
  | forLoop init cond step body header bodyShape span =>
    cases init with
    | some init =>
      cases hn
      cases hstack
      cases htop
      exact ⟨rfl, store.opens_openScope header (some outer)⟩
    | none =>
      cases cond with
      | some cond =>
        cases hn
        cases hstack
        cases htop
        exact ⟨rfl, store.opens_openScope header (some outer)⟩
      | none =>
        cases hn
        cases hstack
        cases htop
        have hopens := store.opens_openScope header (some outer)
        exact ⟨rfl, hopens.before bodyShape (some store.scopes.size)⟩
  | _ => cases hloop

/-- A loop that starts has something of it on the stack. -/
theorem loop_on_top {node : Node} {outer : ScopeId} (hn : m.step = .next next)
    (hnode : m.control = .eval node outer) (hloop : node.isLoop) :
    ∃ top loop, next.stack = top :: m.stack ∧ top.loop? = some loop := by
  obtain ⟨control, stack, store⟩ := m
  cases hnode
  cases node with
  | whileLoop cond body header bodyShape span =>
    cases hn
    exact ⟨_, _, rfl, rfl⟩
  | forLoop init cond step body header bodyShape span =>
    cases init <;> cases cond <;> cases hn <;> exact ⟨_, _, rfl, rfl⟩
  | _ => cases hloop

/-- A loop that starts with a round opens a scope for it after the one for the header. -/
theorem opens_firstRound {node body : Node} {outer id : ScopeId} {loop : Loop} {last : Value}
    (hn : m.step = .next next) (hnode : m.control = .eval node outer) (hloop : node.isLoop)
    (hstack : next.stack = .loopBody loop last :: m.stack) (hcontrol : next.control = .eval body id) :
    id = m.store.scopes.size + 1 ∧ m.store.Opens next.store id := by
  obtain ⟨control, stack, store⟩ := m
  cases hnode
  have hround : ∀ {header loop}, loopRound loop .null stack (store.openScope header (some outer)).2 =
      .next next → id = store.scopes.size + 1 ∧ store.Opens next.store id := by
    intro header loop hn
    obtain ⟨hid, hopens⟩ := opens_loopRound hn hstack hcontrol
    rw [Store.size_openScope] at hid
    exact ⟨hid, hopens.after⟩
  cases node with
  | whileLoop cond body header bodyShape span =>
    cases hn
    cases hstack
  | forLoop init cond step body header bodyShape span =>
    cases init with
    | none => exact hround hn
    | some init =>
      cases hn
      cases hstack
  | _ => cases hloop

/-- A branch that is taken opens the next scope. -/
theorem opens_branch {value : Value} {condSpan : Span} {yes : Node} {no : Option Node}
    {yesShape noShape : Shape} {scope : ScopeId} {rest : List Waiting} {node : Node} {id : ScopeId}
    (hn : m.step = .next next) (hvalue : m.control = .deliver (.normal value))
    (hm : m.stack = .branch condSpan yes no yesShape noShape scope :: rest)
    (hcontrol : next.control = .eval node id) : m.store.Opens next.store id := by
  obtain ⟨control, stack, store⟩ := m
  cases hvalue
  cases hm
  cases value with
  | bool test =>
    cases test with
    | true =>
      cases hn
      cases hcontrol
      exact store.opens_openScope yesShape (some scope)
    | false =>
      cases no with
      | none =>
        cases hn
        cases hcontrol
      | some no =>
        cases hn
        cases hcontrol
        exact store.opens_openScope noShape (some scope)
  | _ => cases hn

/-! ## Calls -/

theorem step_of_calls? {closure : Closure} {args : List Value} (h : m.calls? = some (closure, args)) :
    ∃ site rest, m.step = call closure args site rest m.store := by
  obtain ⟨control, stack, store⟩ := m
  cases control with
  | eval node scope => cases h
  | deliver flow =>
    cases flow with
    | normal value =>
      cases stack with
      | nil => cases h
      | cons top stack =>
        cases top with
        | callee calleeSpan rest scope span =>
          cases rest with
          | cons arg rest => cases h
          | nil =>
            cases value with
            | function closure' =>
              cases h
              exact ⟨some span, stack, rfl⟩
            | _ => cases h
        | argument closure' done rest scope span =>
          cases rest with
          | cons arg rest => cases h
          | nil =>
            cases h
            exact ⟨some span, stack, rfl⟩
        | _ => cases h
    | _ => cases h

theorem frame?_bindParams {closure : Closure} {frame : ScopeId} {site : Option Span} {slot : Nat}
    {params : List Param} {args : List Value}
    (hn : bindParams closure frame site stack slot params args store = .next next) :
    next.frame? = some frame := by
  induction params generalizing slot args store with
  | nil =>
    cases hn
    rfl
  | cons param rest ih =>
    cases args with
    | nil =>
      rw [bindParams] at hn
      split at hn
      · cases hn
        rfl
      · cases hn
    | cons arg args =>
      rw [bindParams] at hn
      split at hn
      · cases hn
      · exact ih hn

theorem boundBelow_bindParams {closure : Closure} {frame : ScopeId} {site : Option Span} {slot : Nat}
    {params : List Param} {args : List Value} (h : store.BoundBelow frame slot)
    (hn : bindParams closure frame site stack slot params args store = .next next) :
    next.store.BoundBelow frame (slot + args.length) := by
  induction params generalizing slot args store with
  | nil =>
    cases hn
    exact h.mono (Nat.le_add_right _ _)
  | cons param rest ih =>
    cases args with
    | nil =>
      rw [bindParams] at hn
      split at hn
      · cases hn
        exact h
      · cases hn
    | cons arg args =>
      rw [bindParams] at hn
      split at hn
      · cases hn
      · rename_i cell hcell
        obtain rfl := Store.cell?_param hcell
        have hbound := ih (h.write arg) hn
        rwa [Nat.add_assoc, Nat.add_comm 1] at hbound

/-- A call begins in the scope that it opens, with the arguments in the first slots. -/
theorem begins_call {closure : Closure} {args : List Value} {site : Option Span}
    (hn : call closure args site stack store = .next next) :
    next.frame? = some store.scopes.size ∧ store.scopes.size < next.store.scopes.size ∧
      next.store.BoundBelow store.scopes.size args.length ∧ args.length ≤ closure.params.length := by
  rw [call] at hn
  split at hn
  · cases hn
  · rename_i hlength
    have hn' : bindParams closure store.scopes.size site stack 0 closure.params args
      (store.openScope closure.frame (some closure.captured)).2 = .next next := hn
    have hbind : Store.Becomes [] (store.openScope closure.frame (some closure.captured)).2
        (bindParams closure store.scopes.size site stack 0 closure.params args
          (store.openScope closure.frame (some closure.captured)).2).store := becomes_bindParams
    have hsize := hbind.keeps.size_le
    rw [hn', Store.size_openScope] at hsize
    have hempty := (store.opens_openScope closure.frame (some closure.captured)).fresh.2.2
    have hbound := boundBelow_bindParams hempty hn'
    rw [Nat.zero_add] at hbound
    exact ⟨frame?_bindParams hn', hsize, hbound, Nat.le_of_not_lt hlength⟩

end Machine

/-! ## Moves -/

namespace Step

variable {s s' t t' : Step}

theorem Move.keeps (h : s.Move s') : s.store.Keeps s'.store := by
  cases h with
  | @step m => exact (Machine.becomes_step m).keeps
  | program => exact Store.keeps_openScope _ _ _
  | eval => exact .refl _
  | call => exact Machine.becomes_call.keeps

theorem Move.eq_step {m : Machine} (h : Move (.next m) s') : m.step = s' := by
  cases h with
  | step => rfl
  | program hended | eval hended | call hended => cases hended

theorem keeps_of_moves (h : ReflTransGen Move s t) : s.store.Keeps t.store := by
  induction h with
  | refl => exact .refl _
  | tail _ hmove ih => exact ih.trans hmove.keeps

/-- A step that ends what runs leaves nothing that waits. -/
theorem Sealed.of_store {flow : Flow} {store : Store} (h : store.Closed) :
    (Step.done flow store).Sealed :=
  ⟨h, fun m hm => by cases hm⟩

theorem Move.sealed (h : s.Move s') (hs : s.Sealed) : s'.Sealed := by
  have hclosed := hs.store
  cases h with
  | step => exact hs.step
  | @program _ shape _ => exact .of_store (hclosed.openScope shape)
  | @eval _ node scope _ hscope =>
    refine ⟨⟨hclosed, by simp, hscope⟩, ?_⟩
    rintro m ⟨⟩ above closure frame slot name rest site below hstack
    simp at hstack
  | @call _ closure args _ hcaptured hargs =>
    constructor
    · have hkeeps : s.store.Keeps (Machine.call closure args none [] s.store).store :=
        Machine.becomes_call.keeps
      have hwiden : ∀ id < s.store.scopes.size,
          id < (Machine.call closure args none [] s.store).store.scopes.size :=
        fun id hid => Nat.lt_of_lt_of_le hid hkeeps.size_le
      have hcall : (Machine.call closure args none [] s.store).Confined
          (· < (Machine.call closure args none [] s.store).store.scopes.size) s.store :=
        confined_call_of_le (fun _ _ hid => hid) (hclosed.confined hwiden) (by simp)
          (hwiden _ hcaptured) (fun arg harg => (hargs arg harg).widen hwiden) (Nat.le_refl _)
      exact hcall.rebase
    · intro m hm above closure frame slot name rest site below hstack
      have hprepares := Machine.prepares_call hclosed hcaptured hm
      rw [← List.append_nil below] at hstack
      exact hprepares.pending hstack

/-- What begins in the scope, told from where the machine stands before and after the move. -/
def occasion (s s' : Step) (id : ScopeId) : Activation :=
  match s with
  | .next m =>
    match m.control, m.stack with
    | .eval _ _, _ => if id = m.store.scopes.size then .loop else .round
    | .deliver _, .branch .. :: _ => .branch
    | .deliver _, .callee .. :: _ | .deliver _, .argument .. :: _ => .call
    | .deliver _, _ => .round
  | .done _ _ | .failed _ _ => if s'.isEnded then .program else .call

theorem Begins.occasion {activation : Activation} {bound : Nat} {id : ScopeId}
    (h : Begins s s' activation bound id) : s.occasion s' id = activation := by
  cases h with
  | program hended =>
    cases s with
    | next m => cases hended
    | done | failed => rfl
  | @loop m _ _ _ _ _ hs hn hnode hloop hstack htop =>
    obtain ⟨control, stack, store⟩ := m
    cases hs
    have hheader := (Machine.opens_loop hn hnode hloop hstack htop).1
    cases hnode
    exact if_pos hheader
  | @round m _ _ top _ _ _ _ _ _ hs hn hflow hm htop _ _ =>
    obtain ⟨control, stack, store⟩ := m
    cases hs
    cases hflow
    cases hm
    cases top <;> first | rfl | cases htop
  | @firstRound m _ _ _ _ _ _ _ hs hn hnode hloop hstack hcontrol =>
    obtain ⟨control, stack, store⟩ := m
    cases hs
    have hround := (Machine.opens_firstRound hn hnode hloop hstack hcontrol).1
    cases hnode
    refine if_neg ?_
    rw [hround]
    exact Nat.succ_ne_self _
  | @branch m _ _ _ _ _ _ _ _ _ _ _ hs hn hvalue hm _ =>
    obtain ⟨control, stack, store⟩ := m
    cases hs
    cases hvalue
    cases hm
    rfl
  | @call m _ _ _ _ hs hn hcalls hframe =>
    obtain ⟨control, stack, store⟩ := m
    cases hs
    cases control with
    | eval node scope => cases hcalls
    | deliver flow =>
      cases stack with
      | nil => cases flow <;> cases hcalls
      | cons top stack => cases top <;> first | rfl | cases flow <;> cases hcalls
  | host hended hn hframe =>
    cases s with
    | next m => cases hended
    | done | failed => rfl

theorem Begins.fresh {activation : Activation} {bound : Nat} {id : ScopeId}
    (h : Begins s s' activation bound id) : s.store.scopes[id]? = none ∧
      (∃ scope, s'.store.scopes[id]? = some scope) ∧ s'.store.BoundBelow id bound := by
  -- a call begins in the next scope
  have hcall : ∀ {closure args site stack next frame},
      Machine.call closure args site stack s.store = .next next → next.frame? = some frame →
      s.store.scopes[frame]? = none ∧ (∃ scope, next.store.scopes[frame]? = some scope) ∧
        next.store.BoundBelow frame args.length := by
    intro closure args site stack next frame hn hframe
    obtain ⟨hnew, hsize, hbound, -⟩ := Machine.begins_call hn
    rw [hframe] at hnew
    cases hnew
    exact ⟨Array.getElem?_eq_none (Nat.le_refl _), ⟨_, Array.getElem?_eq_getElem hsize⟩, hbound⟩
  cases h with
  | @program shape _ => exact (s.store.opens_openScope shape none).fresh
  | loop hs hn hnode hloop hstack htop =>
    cases hs
    exact (Machine.opens_loop hn hnode hloop hstack htop).2.fresh
  | round hs hn hflow hm htop hstack hcontrol =>
    cases hs
    exact (Machine.opens_round hn hflow hm htop hstack hcontrol).fresh
  | firstRound hs hn hnode hloop hstack hcontrol =>
    cases hs
    exact (Machine.opens_firstRound hn hnode hloop hstack hcontrol).2.fresh
  | branch hs hn hvalue hm hcontrol =>
    cases hs
    exact (Machine.opens_branch hn hvalue hm hcontrol).fresh
  | call hs hn hcalls hframe =>
    cases hs
    obtain ⟨site, rest, hstep⟩ := Machine.step_of_calls? hcalls
    rw [hstep] at hn
    exact hcall hn hframe
  | host hended hn hframe => exact hcall hn hframe

theorem Enters.boundBelow {closure : Closure} {frame : ScopeId} (hs : s.Sealed)
    (h : Enters s s' closure frame) : s'.store.BoundBelow frame closure.params.length := by
  cases h with
  | step hm hn hcalling hstack hcontrol =>
    cases hm
    obtain ⟨frame', site, hprepares, -⟩ := hs.prepares hcalling hn
    rcases hprepares with ⟨-, hbody, hbound⟩ | ⟨_, _, _, _, hdefault, -⟩
    · rw [hcontrol] at hbody
      cases hbody
      exact hbound
    · rw [hstack] at hdefault
      cases hdefault
  | @host next closure args site rest node frame hended hn hstack hcontrol =>
    obtain ⟨hframe, -, hbound, hlength⟩ := Machine.begins_call hn
    rw [Machine.frame?, hcontrol, hstack] at hframe
    cases hframe
    exact hbound.mono hlength

/-- A default that has ended leads on in the scope of its call. -/
theorem frame?_of_default {m next : Machine} {closure : Closure} {frame found : ScopeId} {slot : Nat}
    {name : String} {rest : List Param} {site : Option Span} {below : List Waiting}
    (hm : m.stack = .default closure frame slot name rest site :: below) (hn : m.step = .next next)
    (hcalling : m.calling?.isSome) (hfound : next.frame? = some found) : found = frame := by
  have hresume : ∀ value, Machine.resume (.default closure frame slot name rest site) value below
      m.store = .next next → found = frame := by
    intro value hn
    simp only [Machine.resume] at hn
    split at hn
    · cases hn
    · rw [Machine.frame?_bindParams hn] at hfound
      exact (Option.some.inj hfound).symm
  obtain ⟨control, stack, store⟩ := m
  cases hm
  cases control with
  | eval node scope => cases hcalling
  | deliver flow =>
    cases flow with
    | normal value => exact hresume value hn
    | ret value => exact hresume value hn
    | breakLoop | continueLoop => cases hcalling

/-- **What a move does to the scopes.** -/
theorem Move.fresh (h : s.Move s') (hs : s.Sealed) : s.Fresh s' where
  keeps := h.keeps
  begins hbegins := hbegins.fresh
  loops := by
    rintro m next node outer rfl rfl hnode hloop
    have hn : m.step = .next next := h.eq_step
    obtain ⟨top, loop, hstack, htop⟩ := Machine.loop_on_top hn hnode hloop
    exact ⟨loop.header, .loop rfl hn hnode hloop hstack htop⟩
  calls := by
    rintro m next closure args rfl rfl hcalls
    have hn : m.step = .next next := h.eq_step
    obtain ⟨site, rest, hstep⟩ := Machine.step_of_calls? hcalls
    exact ⟨_, .call rfl hn hcalls (Machine.begins_call (hstep.symm.trans hn)).1⟩
  apart hbegins hother := hbegins.occasion.symm.trans hother.occasion
  enters henters := henters.boundBelow hs
  carries := by
    rintro m next closure frame slot name rest site below found rfl rfl hm hcalling hfound
    exact frame?_of_default hm h.eq_step hcalling hfound

end Step

/-! ## Runs -/

/-- The store can come to stand so. -/
def Store.Reached (store : Store) (s : Step) : Prop :=
  ReflTransGen Step.Move (.done (.normal .null) store) s

section Runs

variable {store : Store}

theorem Store.Reached.sealed (hclosed : store.Closed) {s : Step} (h : store.Reached s) : s.Sealed := by
  induction h with
  | refl => exact .of_store hclosed
  | tail _ hmove ih => exact hmove.sealed ih

/-- A bounded run is made of steps. -/
theorem Step.moves_runAfter (first : Step) (limit : Nat) :
    ∃ last, ReflTransGen Move first last ∧ last.store = (Machine.runAfter limit first).store ∧
      ∀ flow after, Machine.runAfter limit first = .finished flow after → last = .done flow after := by
  induction limit generalizing first with
  | zero =>
    refine ⟨first, .refl, ?_⟩
    cases first with
    | next m =>
      refine ⟨rfl, ?_⟩
      rintro flow after ⟨⟩
    | done flow store =>
      refine ⟨rfl, ?_⟩
      rintro flow after ⟨⟩
      rfl
    | failed error store =>
      refine ⟨rfl, ?_⟩
      rintro flow after ⟨⟩
  | succ limit ih =>
    cases first with
    | next m =>
      have hrun : Machine.runAfter (limit + 1) (.next m) = Machine.runAfter limit m.step := rfl
      obtain ⟨last, hmoves, hlast⟩ := ih m.step
      rw [hrun]
      exact ⟨last, .head .step hmoves, hlast⟩
    | done flow store =>
      refine ⟨.done flow store, .refl, rfl, ?_⟩
      rintro flow after ⟨⟩
      rfl
    | failed error store =>
      refine ⟨.failed error store, .refl, rfl, ?_⟩
      rintro flow after ⟨⟩

/-- The statements of a program are evaluated one after the other. -/
theorem Store.Reached.runStatements {limit : Nat} {scope : ScopeId} {last : Value}
    {statements : List Node} {found : Store} (h : store.Reached (.done (.normal last) found))
    (hscope : scope < found.scopes.size) :
    ∃ s, store.Reached s ∧ s.store = (runStatements limit scope last statements found).2 := by
  induction statements generalizing last found with
  | nil => exact ⟨_, h, rfl⟩
  | cons node rest ih =>
    have hfirst : store.Reached (.eval node scope [] found) := h.tail (.eval rfl hscope)
    obtain ⟨s, hmoves, hstore, hdone⟩ := Step.moves_runAfter (.eval node scope [] found) limit
    have hs : store.Reached s := hfirst.trans hmoves
    have hrun : Machine.runAfter limit (.eval node scope [] found) =
        Machine.evaluate limit node scope found := rfl
    rw [hrun] at hstore hdone
    rw [SlotScript.runStatements]
    cases hout : Machine.evaluate limit node scope found with
    | finished flow after =>
      rw [hout] at hstore
      cases flow with
      | normal value =>
        obtain rfl := hdone _ _ hout
        have hkeeps : found.Keeps after := Step.keeps_of_moves hmoves
        exact ih hs (Nat.lt_of_lt_of_le hscope hkeeps.size_le)
      | ret | breakLoop | continueLoop => exact ⟨s, hs, hstore⟩
    | failed error after =>
      rw [hout] at hstore
      exact ⟨s, hs, hstore⟩
    | unfinished m =>
      rw [hout] at hstore
      exact ⟨s, hs, hstore⟩

end Runs

/-- A store with plain global names and no scopes is closed. -/
theorem Store.closed_seeded {seeds : List (String × Value)} (h : PlainSeeds seeds) :
    (Store.seeded seeds).Closed where
  grown := Nat.le_refl _
  parent id scope outer hid := absurd hid (Nat.not_lt_zero id)
  values := by
    intro cell value hcell hread
    cases cell with
    | slot id index slotClass => exact absurd hcell (Nat.not_lt_zero id)
    | global name => exact Value.confined_of_isPlain (h _ (Globals.mem_of_lookup_ofList hread))
  rest _ _ := rfl

/-- **Activations have scopes of their own.** Whatever happens to a store that mentions only its own
scopes: it keeps what it has; every move begins activations in empty scopes that were not there before,
and starts the bodies of functions in scopes where only the parameters have values; and activations that
begin in different moves have different scopes. This is so during evaluations, calls from outside and
whole programs, however they end. -/
theorem Store.activations_separate {store : Store} (hclosed : store.Closed) :
    (∀ s, store.Reached s → store.Keeps s.store) ∧
    (∀ s s', store.Reached s → s.Move s' → s.Fresh s') ∧
    (∀ s s' t t' activation other bound bound' id id', store.Reached s → s.Move s' →
      ReflTransGen Step.Move s' t → t.Move t' → s.Begins s' activation bound id →
      t.Begins t' other bound' id' → id ≠ id') ∧
    (∀ limit node scope, scope < store.scopes.size →
      ∃ s, store.Reached s ∧ s.store = (Machine.evaluate limit node scope store).store) ∧
    (∀ limit (closure : Closure) (args : List Value), closure.captured < store.scopes.size →
      (∀ arg ∈ args, arg.Confined (· < store.scopes.size)) →
      ∃ s, store.Reached s ∧ s.store = (closure.call limit args store).2) ∧
    ∀ limit (program : Program) seeds, store = Store.seeded seeds →
      ∃ s, store.Reached s ∧ s.store = (program.interpret limit seeds).2 := by
  refine ⟨?_, ?_, ?_, ?_, ?_, ?_⟩
  · intro s hs
    exact Step.keeps_of_moves hs
  · intro s s' hs hmove
    exact hmove.fresh (hs.sealed hclosed)
  · rintro s s' t t' activation other bound bound' id _ hs hmove hmoves - hbegins hother rfl
    -- the scope of the first activation is there when the second one begins
    obtain ⟨-, ⟨scope, hscope⟩, -⟩ := hbegins.fresh
    obtain ⟨scope', hscope', -⟩ := (Step.keeps_of_moves hmoves).grows id scope hscope
    rw [hother.fresh.1] at hscope'
    cases hscope'
  · intro limit node scope hscope
    have hfirst : store.Reached (.eval node scope [] store) := .single (.eval rfl hscope)
    obtain ⟨s, hmoves, hstore, -⟩ := Step.moves_runAfter (.eval node scope [] store) limit
    exact ⟨s, hfirst.trans hmoves, hstore⟩
  · intro limit closure args hcaptured hargs
    have hfirst : store.Reached (Machine.call closure args none [] store) :=
      .single (.call rfl hcaptured hargs)
    obtain ⟨s, hmoves, hstore, -⟩ :=
      Step.moves_runAfter (Machine.call closure args none [] store) limit
    rw [Closure.call_store]
    exact ⟨s, hfirst.trans hmoves, hstore⟩
  · rintro limit program seeds rfl
    have hfirst : (Store.seeded seeds).Reached (.done (.normal .null)
        ((Store.seeded seeds).openScope program.shape none).2) := .single (.program rfl)
    exact hfirst.runStatements (by simp)

/-- Two counters, of which the first one counts on in place and by a function that has captured it; and
a program that starts from nothing but one number. -/
theorem Store.activations_separate_counters :
    counters.Closed ∧
    (∀ s, counters.Reached s → counters.Keeps s.store) ∧
    (∀ s s', counters.Reached s → s.Move s' → s.Fresh s') ∧
    (∀ s s' t t' activation other bound bound' id id', counters.Reached s → s.Move s' →
      ReflTransGen Step.Move s' t → t.Move t' → s.Begins s' activation bound id →
      t.Begins t' other bound' id' → id ≠ id') ∧
    (∃ s, counters.Reached s ∧ s.store = (Machine.evaluate 9 (.counting 0) 1 counters).store) ∧
    (∃ s, counters.Reached s ∧ s.store = (Closure.counter.call 9 [] counters).2) ∧
    (Store.seeded [("n", .int 1)]).Closed ∧
    ∀ limit (program : Program), ∃ s, (Store.seeded [("n", .int 1)]).Reached s ∧
      s.store = (program.interpret limit [("n", .int 1)]).2 := by
  have hclosed : counters.Closed := counters_confined (by decide)
  obtain ⟨hkeeps, hfresh, hapart, heval, hcall, -⟩ := Store.activations_separate hclosed
  have hseeded : (Store.seeded [("n", .int 1)]).Closed := closed_seeded (by decide)
  obtain ⟨-, -, -, -, -, hinterpret⟩ := Store.activations_separate hseeded
  exact ⟨hclosed, hkeeps, hfresh, hapart, heval 9 _ 1 (by decide),
    hcall 9 .counter [] (by decide) (by simp), hseeded,
    fun limit program => hinterpret limit program _ rfl⟩

end SlotScript
