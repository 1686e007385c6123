import SlotScript.Proofs.Machine.Reach
import SlotScript.Proofs.Machine.Stack

/-!
# Calls that wait for a default

A call opens its scope, binds the arguments, and then evaluates the defaults of the parameters that are
left, one after the other. While a default runs, the call's scope is there, but nobody knows it: a default
runs in the scope of the definition, and no function has captured the new scope. So the scope is the same
when the default has ended, and the body finds nothing in it but the parameters.

A machine is *sealed* (`Step.Sealed`) if

* it mentions no scope that is not there (`Store.Closed` for its store), so that a scope that is opened is
  not known to anybody;
* for every default that is evaluated, the part of the machine above it does not mention the scope of the
  call, and in this scope only the parameters before it are bound (`Store.Pending`).

**Theorem (`Step.Sealed.step`).** A step of a sealed machine leads to a sealed one.

The part of the machine above a waiting default is a machine of its own: what lies below it on the stack
makes no difference until all above it is gone (`Machine.step_under`). So what is known about evaluations
that stay inside a set of scopes holds of this part.
-/

namespace SlotScript

/-! ## Stores that mention only their own scopes -/

/-- All that the store mentions is there. -/
def Store.Closed (store : Store) : Prop := store.Confined (· < store.scopes.size) store

section Widen

variable {mine other : ScopeId → Prop} (h : ∀ id, mine id → other id)

include h

theorem Value.Confined.widen {value : Value} (hv : value.Confined mine) : value.Confined other :=
  fun target htarget => h target (hv target htarget)

theorem Flow.Confined.widen {flow : Flow} (hf : flow.Confined mine) : flow.Confined other := by
  cases flow with
  | normal value | ret value => exact Value.Confined.widen h hf
  | breakLoop | continueLoop => trivial

theorem Waiting.Confined.widen {waiting : Waiting} (hw : waiting.Confined mine) :
    waiting.Confined other := by
  cases waiting with
  | left | logicalLeft | assign | branch | callee | block | loopInit => exact h _ hw
  | right => exact Value.Confined.widen h hw
  | loopCond | loopBody | loopStep => exact ⟨h _ hw.1, hw.2.widen h⟩
  | argument => exact ⟨h _ hw.1, fun value hvalue => (hw.2.1 value hvalue).widen h, h _ hw.2.2⟩
  | default => exact ⟨h _ hw.1, h _ hw.2⟩
  | unary | logicalRight | body | ret => trivial

end Widen

namespace Store

variable {mine : ScopeId → Prop} {store base : Store}

theorem lt_size_of_read {id : ScopeId} {index : Nat} {slotClass : SlotClass} {value : Value}
    (h : store.read (.slot id index slotClass) = some value) : id < store.scopes.size := by
  refine Nat.lt_of_not_le fun hle => ?_
  rw [read, Array.getElem?_eq_none hle] at h
  cases h

/-- Every value in a closed store is a value of the store. -/
theorem Closed.value (h : store.Closed) {cell : Cell} {value : Value}
    (hread : store.read cell = some value) : value.Confined (· < store.scopes.size) := by
  refine h.values cell value ?_ hread
  cases cell with
  | global name => trivial
  | slot id index slotClass => exact lt_size_of_read hread

theorem Closed.parent_lt (h : store.Closed) {id outer : ScopeId} {scope : Scope}
    (hscope : store.scopes[id]? = some scope) (houter : scope.parent = some outer) :
    outer < store.scopes.size :=
  h.parent id scope outer (Array.getElem?_eq_some_iff.mp hscope).1 hscope houter

/-- In a closed store, any set that has all its scopes is closed. -/
theorem Closed.confined (h : store.Closed) (hmine : ∀ id < store.scopes.size, mine id) :
    store.Confined mine store where
  grown := Nat.le_refl _
  parent _ _ outer _ hscope houter := hmine outer (h.parent_lt hscope houter)
  values _ _ _ hread := (h.value hread).widen hmine
  rest _ _ := rfl

theorem Confined.rebase (h : store.Confined mine base) : store.Confined mine store :=
  ⟨Nat.le_refl _, h.parent, h.values, fun _ _ => rfl⟩

end Store

theorem Step.Confined.rebase {mine : ScopeId → Prop} {base : Store} {step : Step}
    (h : step.Confined mine base) : step.Confined mine step.store := by
  cases step with
  | next m =>
    obtain ⟨control, stack, store⟩ := m
    cases control <;> exact ⟨h.1.rebase, h.2⟩
  | done flow store => exact Store.Confined.rebase h
  | failed error store => exact Store.Confined.rebase h

theorem Step.Confined.store {mine : ScopeId → Prop} {base : Store} {step : Step}
    (h : step.Confined mine base) : step.store.Confined mine base := by
  cases step with
  | next m =>
    obtain ⟨control, stack, store⟩ := m
    cases control <;> exact h.1
  | done flow store => exact h
  | failed error store => exact h

theorem Step.Confined.stack {mine : ScopeId → Prop} {base : Store} {m : Machine}
    (h : (Step.next m).Confined mine base) : ∀ waiting ∈ m.stack, waiting.Confined mine := by
  obtain ⟨control, stack, store⟩ := m
  cases control <;> exact h.2.1

/-- A machine that mentions only what is there is confined to any set that has all of it. -/
theorem Step.Confined.widen {m : Machine} {mine : ScopeId → Prop}
    (h : (Step.next m).Confined (· < m.store.scopes.size) m.store)
    (hmine : ∀ id < m.store.scopes.size, mine id) : (Step.next m).Confined mine m.store := by
  obtain ⟨control, stack, store⟩ := m
  have hstore : store.Closed := h.store
  have hstack : ∀ waiting ∈ stack, waiting.Confined mine :=
    fun waiting hmem => (h.stack waiting hmem).widen hmine
  cases control with
  | eval node scope => exact ⟨hstore.confined hmine, hstack, hmine _ h.2.2⟩
  | deliver flow => exact ⟨hstore.confined hmine, hstack, Flow.Confined.widen hmine h.2.2⟩

/-! ## Calls in preparation -/

namespace Store

/-- In the scope, nothing is bound but the first variables. -/
def BoundBelow (store : Store) (frame : ScopeId) (count : Nat) : Prop :=
  ∀ index slotClass value, store.read (.slot frame index slotClass) = some value →
    slotClass = .var ∧ index < count

theorem BoundBelow.write {store : Store} {frame : ScopeId} {slot : Nat} (h : store.BoundBelow frame slot)
    (value : Value) : (store.write (.slot frame slot .var) value).BoundBelow frame (slot + 1) := by
  intro index slotClass found hread
  rcases read_write hread with ⟨heq, -⟩ | hread
  · cases heq
    exact ⟨rfl, Nat.lt_succ_self _⟩
  · obtain ⟨hclass, hlt⟩ := h index slotClass found hread
    exact ⟨hclass, Nat.lt_succ_of_lt hlt⟩

/-- The scope of a call whose parameters are being bound: only the call knows it, the parameters before
`slot` are bound, and `left` are left. -/
structure Pending (store : Store) (closure : Closure) (frame : ScopeId) (slot left : Nat) : Prop where
  unknown : store.Confined (· ≠ frame) store
  captured : closure.captured ≠ frame
  bound : store.BoundBelow frame slot
  count : slot + left = closure.params.length

variable {store : Store} {closure : Closure} {frame : ScopeId} {slot left : Nat}

/-- A parameter's slot is in the call's own scope. -/
theorem cell?_param {name : String} {cell : Cell}
    (h : store.cell? frame (.slot 0 slot .var) name = some cell) : cell = .slot frame slot .var := by
  cases cell?_eq_some_iff.mp h with
  | slot houtward _ _ =>
    cases houtward
    rfl

theorem Pending.bind (h : store.Pending closure frame slot (left + 1)) {name : String} {cell : Cell}
    (hcell : store.cell? frame (.slot 0 slot .var) name = some cell) (value : Value) :
    (store.write cell value).Pending closure frame (slot + 1) left := by
  obtain rfl := cell?_param hcell
  have hcount : slot + 1 + left = closure.params.length := by
    rw [← h.count, Nat.add_assoc, Nat.add_comm 1]
  refine ⟨⟨Nat.le_refl _, ?_, ?_, fun _ _ => rfl⟩, h.captured, h.bound.write value, hcount⟩
  · intro id scope outer hid hscope houter
    have hsame : (store.write (.slot frame slot .var) value).scopes[id]? = store.scopes[id]? := by
      show (store.scopes.modify frame _)[id]? = store.scopes[id]?
      rw [Array.getElem?_modify, if_neg (Ne.symm hid)]
    exact h.unknown.parent id scope outer hid (hsame ▸ hscope) houter
  · intro cell found hcell hread
    rw [read_write_of_ne] at hread
    · exact h.unknown.values cell found hcell hread
    · rintro rfl
      exact hcell rfl

/-- The scope that a call opens is not known to anybody. -/
theorem Closed.pending (h : store.Closed) (hcaptured : closure.captured < store.scopes.size) :
    (store.openScope closure.frame (some closure.captured)).2.Pending closure store.scopes.size 0
      closure.params.length where
  unknown := by
    refine ⟨Nat.le_refl _, ?_, ?_, fun _ _ => rfl⟩
    · intro id scope outer hid hscope houter
      have hscope : (store.scopes.push (.ofShape closure.frame _))[id]? = some scope := hscope
      rw [Array.getElem?_push, if_neg hid] at hscope
      exact Nat.ne_of_lt (h.parent_lt hscope houter)
    · intro cell value _ hread
      rw [read_openScope] at hread
      exact (h.value hread).widen fun id => Nat.ne_of_lt
  captured := Nat.ne_of_lt hcaptured
  bound := by
    intro index slotClass value hread
    rw [read_openScope] at hread
    exact absurd (lt_size_of_read hread) (Nat.lt_irrefl _)
  count := Nat.zero_add _

end Store

/-! ## What the functions that bind parameters lead to -/

/-- The machine goes on with the call: with its body, if all parameters are bound, or with a default. -/
def Machine.Prepares (closure : Closure) (frame : ScopeId) (site : Option Span)
    (stack : List Waiting) (next : Machine) : Prop :=
  (next.stack = .body site :: stack ∧ next.control = .eval closure.body frame ∧
    next.store.BoundBelow frame closure.params.length) ∨
  ∃ slot name rest value, next.stack = .default closure frame slot name rest site :: stack ∧
    next.control = .eval value closure.captured ∧
    next.store.Pending closure frame slot (rest.length + 1)

theorem Machine.prepares_bindParams {closure : Closure} {frame : ScopeId} {site : Option Span}
    {stack : List Waiting} {slot : Nat} {params : List Param} {args : List Value} {store : Store}
    {next : Machine} (h : store.Pending closure frame slot params.length)
    (hn : bindParams closure frame site stack slot params args store = .next next) :
    next.Prepares closure frame site stack := by
  induction params generalizing slot args store with
  | nil =>
    cases hn
    have hcount : slot = closure.params.length := h.count
    exact .inl ⟨rfl, rfl, hcount ▸ h.bound⟩
  | cons param rest ih =>
    cases args with
    | nil =>
      rw [bindParams] at hn
      split at hn
      · rename_i value _
        cases hn
        exact .inr ⟨slot, param.name, rest, value, rfl, rfl, h⟩
      · cases hn
    | cons arg args =>
      rw [bindParams] at hn
      split at hn
      · cases hn
      · rename_i cell hcell
        exact ih (h.bind hcell arg) hn

theorem Machine.prepares_call {closure : Closure} {args : List Value} {site : Option Span}
    {stack : List Waiting} {store : Store} {next : Machine} (h : store.Closed)
    (hcaptured : closure.captured < store.scopes.size)
    (hn : call closure args site stack store = .next next) :
    next.Prepares closure store.scopes.size site stack := by
  rw [call] at hn
  split at hn
  · cases hn
  · exact prepares_bindParams (h.pending hcaptured) hn

theorem Machine.prepares_default {closure : Closure} {frame : ScopeId} {slot : Nat} {name : String}
    {rest : List Param} {site : Option Span} {value : Value} {stack : List Waiting} {store : Store}
    {next : Machine} (h : store.Pending closure frame slot (rest.length + 1))
    (hn : resume (.default closure frame slot name rest site) value stack store = .next next) :
    next.Prepares closure frame site stack := by
  simp only [resume] at hn
  split at hn
  · cases hn
  · rename_i cell hcell
    exact prepares_bindParams (h.bind hcell value) hn

/-- A default that is put on the stack is on top of it, and only its call knows the scope. -/
theorem Machine.Prepares.pending {called closure : Closure} {id frame : ScopeId} {site site' : Option Span}
    {tail above mid : List Waiting} {slot : Nat} {name : String} {rest : List Param} {next : Machine}
    (h : next.Prepares called id site' tail)
    (hstack : next.stack = above ++ .default closure frame slot name rest site :: (mid ++ tail)) :
    (Step.next ⟨next.control, above, next.store⟩).Confined (· ≠ frame) next.store ∧
      next.store.Pending closure frame slot (rest.length + 1) := by
  have hsingle : ∀ {pushed}, next.stack = pushed :: tail →
      above = [] ∧ .default closure frame slot name rest site = pushed := by
    intro pushed hpushed
    have hcancel : above ++ .default closure frame slot name rest site :: mid = [pushed] := by
      have happend : above ++ .default closure frame slot name rest site :: mid ++ tail =
          [pushed] ++ tail := by
        rw [List.append_assoc, List.cons_append, ← hstack]
        exact hpushed
      exact List.append_cancel_right happend
    cases above with
    | nil => exact ⟨rfl, (List.cons.inj hcancel).1⟩
    | cons other above => simp at hcancel
  rcases h with ⟨hpushed, -⟩ | ⟨_, _, _, value, hpushed, hcontrol, hpending⟩
  · cases (hsingle hpushed).2
  · obtain ⟨rfl, heq⟩ := hsingle hpushed
    cases heq
    refine ⟨?_, hpending⟩
    rw [hcontrol]
    exact ⟨hpending.unknown, by simp, hpending.captured⟩

/-! ## Sealed machines -/

/-- The machine mentions only what is there, and the scopes of calls that wait for a default are known to
these calls alone. -/
structure Step.Sealed (step : Step) : Prop where
  closed : step.Confined (· < step.store.scopes.size) step.store
  pending : ∀ m, step = .next m → ∀ above closure frame slot name rest site below,
    m.stack = above ++ .default closure frame slot name rest site :: below →
    (Step.next ⟨m.control, above, m.store⟩).Confined (· ≠ frame) m.store ∧
      m.store.Pending closure frame slot (rest.length + 1)

namespace Step.Sealed

variable {m next : Machine}

theorem store {step : Step} (h : step.Sealed) : step.store.Closed := h.closed.store

/-- Where the machine goes on with a call, it does so in a scope that it has just opened, or in the scope
of the default that has ended. -/
theorem prepares (h : (Step.next m).Sealed) {closure : Closure} (hcalling : m.calling? = some closure)
    (hn : m.step = .next next) : ∃ frame site, next.Prepares closure frame site m.stack.tail ∧
      ((∃ slot name rest below, m.stack = .default closure frame slot name rest site :: below) ∨
        frame = m.store.scopes.size) := by
  obtain ⟨control, stack, store⟩ := m
  have hstore : store.Closed := h.store
  cases control with
  | eval node scope => cases hcalling
  | deliver flow =>
    cases stack with
    | nil => cases flow <;> cases hcalling
    | cons top stack =>
      have htop := h.closed.stack top List.mem_cons_self
      have hflow := h.closed.2.2
      cases top with
      | callee calleeSpan args scope span =>
        cases flow with
        | normal value =>
          cases value with
          | function closure' =>
            cases args with
            | nil =>
              cases hcalling
              have hcaptured := Value.confined_function.mp hflow
              have hcall : Machine.call closure [] (some span) stack store = .next next := hn
              exact ⟨_, some span, Machine.prepares_call hstore hcaptured hcall, .inr rfl⟩
            | cons arg rest => cases hcalling
          | _ => cases args <;> cases hcalling
        | _ => cases hcalling
      | argument closure' done rest scope span =>
        cases flow with
        | normal value =>
          cases rest with
          | nil =>
            cases hcalling
            exact ⟨_, some span, Machine.prepares_call hstore htop.1 hn, .inr rfl⟩
          | cons arg rest => cases hcalling
        | _ => cases hcalling
      | default closure' frame slot name rest site =>
        have hpending := (h.pending _ rfl [] closure' frame slot name rest site stack rfl).2
        have hresume : ∀ value, Machine.resume (.default closure' frame slot name rest site) value stack
            store = .next next → next.Prepares closure' frame site stack :=
          fun value hn => Machine.prepares_default hpending hn
        cases flow with
        | normal value =>
          cases hcalling
          exact ⟨frame, site, hresume value hn, .inl ⟨slot, name, rest, stack, rfl⟩⟩
        | ret value =>
          cases hcalling
          exact ⟨frame, site, hresume value hn, .inl ⟨slot, name, rest, stack, rfl⟩⟩
        | breakLoop | continueLoop => cases hcalling
      | _ => cases flow <;> cases hcalling

/-- A scope that only a call below knows is as it was when the part above has taken a step. -/
theorem pending_above (h : (Step.next m).Sealed) {above below : List Waiting} {closure : Closure}
    {frame : ScopeId} {slot : Nat} {name : String} {rest : List Param} {site : Option Span}
    (hstack : m.stack = above ++ .default closure frame slot name rest site :: below)
    (hn : Machine.step ⟨m.control, above, m.store⟩ = .next next) :
    (Step.next next).Confined (· ≠ frame) next.store ∧
      next.store.Pending closure frame slot (rest.length + 1) := by
  obtain ⟨hconfined, hpending⟩ := h.pending m rfl _ _ _ _ _ _ _ _ hstack
  have hframe : frame < m.store.scopes.size := by
    have hwaiting := h.closed.stack (.default closure frame slot name rest site) (by simp [hstack])
    exact hwaiting.2
  have hfresh : ∀ id, m.store.scopes.size ≤ id → id ≠ frame := by
    rintro id hid rfl
    exact absurd hframe (Nat.not_lt_of_le hid)
  have hstep := confined_step hfresh hconfined
  rw [hn] at hstep
  refine ⟨hstep.rebase, hstep.store.rebase, hpending.captured, ?_, hpending.count⟩
  intro index slotClass value hread
  have hsame : next.store.scopes[frame]? = m.store.scopes[frame]? :=
    hstep.store.rest frame fun hne => hne rfl
  rw [Store.read, hsame] at hread
  exact hpending.bound index slotClass value hread

/-- A default that waits after a step waited below what the step looked at, or the step goes on with a
call. -/
theorem pending_focus (h : (Step.next m).Sealed) {focus tail : List Waiting}
    (hlooks : Machine.Looks ⟨m.control, focus, m.store⟩) (hm : m.stack = focus ++ tail)
    (hcalling : ∀ first, Machine.step ⟨m.control, focus, m.store⟩ = .next first →
      ∀ waiting ∈ first.stack, waiting.isCall = true → ∃ closure, m.calling? = some closure)
    (htail : m.stack.tail = tail ∨ m.calling? = none) (hn : m.step = .next next)
    {above below : List Waiting} {closure : Closure} {frame : ScopeId} {slot : Nat} {name : String}
    {rest : List Param} {site : Option Span}
    (hstack : next.stack = above ++ .default closure frame slot name rest site :: below) :
    (Step.next ⟨next.control, above, next.store⟩).Confined (· ≠ frame) next.store ∧
      next.store.Pending closure frame slot (rest.length + 1) := by
  obtain ⟨first, hfirst, rfl⟩ : ∃ first, Machine.step ⟨m.control, focus, m.store⟩ = .next first ∧
      next = { first with stack := first.stack ++ tail } := by
    have hunder := Machine.step_under tail hlooks
    simp only [← hm] at hunder
    have hunder : m.step = (Machine.step ⟨m.control, focus, m.store⟩).under tail := hunder
    rw [hn] at hunder
    cases hstep : Machine.step ⟨m.control, focus, m.store⟩ with
    | next first =>
      rw [hstep] at hunder
      exact ⟨first, rfl, Step.next.inj hunder⟩
    | done flow store =>
      rw [hstep] at hunder
      cases hunder
    | failed error store =>
      rw [hstep] at hunder
      cases hunder
  -- a default in the rest of the stack was there before, with the same part above it
  have hold : ∀ mid, tail = mid ++ .default closure frame slot name rest site :: below →
      above = first.stack ++ mid → (Step.next ⟨first.control, above, first.store⟩).Confined (· ≠ frame)
        first.store ∧ first.store.Pending closure frame slot (rest.length + 1) := by
    rintro mid rfl rfl
    rw [← List.append_assoc] at hm
    have hstep := Machine.step_under mid hlooks
    rw [hfirst] at hstep
    exact h.pending_above hm hstep
  rcases List.append_eq_append_iff.mp hstack with ⟨mid, habove, hbelow⟩ | ⟨mid, habove, hbelow⟩
  · exact hold mid hbelow habove
  · cases mid with
    | nil => exact hold [] hbelow.symm (by rw [habove]; simp)
    | cons top mid =>
      -- the default is new, so it is all that the step has put on the stack
      obtain ⟨rfl, rfl⟩ := List.cons.inj hbelow
      obtain ⟨called, hcalled⟩ := hcalling first hfirst (.default closure frame slot name rest site)
        (by rw [habove]; simp) rfl
      obtain ⟨_, _, hprepares, -⟩ := h.prepares hcalled hn
      have htail := htail.resolve_right (by rw [hcalled]; simp)
      rw [htail] at hprepares
      exact hprepares.pending hstack

/-- **A step of a sealed machine leads to a sealed one.** -/
theorem step (h : (Step.next m).Sealed) : m.step.Sealed where
  closed := by
    have hsize := (Machine.becomes_step m).keeps.size_le
    have hconfined : (Step.next m).Confined (· < m.step.store.scopes.size) m.store :=
      h.closed.widen fun id hid => Nat.lt_of_lt_of_le hid hsize
    exact (confined_step_of_le (fun _ _ hid => hid) hconfined).rebase
  pending := by
    intro next hn above closure frame slot name rest site below hstack
    obtain ⟨control, stack, store⟩ := m
    cases control with
    | eval node scope =>
      have hm : stack = [] ++ stack := rfl
      refine h.pending_focus (by simp [Machine.Looks]) hm ?_ (.inr rfl) hn hstack
      intro first hfirst waiting hmem hcall
      cases Machine.mem_stack_of_mem_eval (by rw [hfirst]; exact hmem) hcall
    | deliver flow =>
      cases stack with
      | nil => cases flow <;> cases hn
      | cons top stack =>
        have hm : top :: stack = [top] ++ stack := rfl
        refine h.pending_focus (by simp [Machine.Looks]) hm ?_ (.inl rfl) hn hstack
        intro first hfirst waiting hmem hcall
        refine Option.isSome_iff_exists.mp ?_
        rw [Machine.calling?_congr stack []]
        exact (Machine.calling_of_mem_deliver (by rw [hfirst]; exact hmem) hcall).resolve_left
          List.not_mem_nil

end Step.Sealed

end SlotScript
