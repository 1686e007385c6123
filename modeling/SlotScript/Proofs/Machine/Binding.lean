import Mathlib
import SlotScript.Proofs.Machine.Activation
import SlotScript.Proofs.Machine.Run

/-!
# Arguments and parameters

A call opens a scope, puts the arguments into its first slots, and evaluates the defaults of the
parameters that are left, from left to right in the scope of the definition. `Closure.Defaulted` says
what these evaluations come to, one after the other, each in the store that the one before has left.

**Theorem (`Session.call_binds`).** Take any function value of a program that compiles, and any arguments.

* Too many arguments are an error, and the store is as it was.
* If all defaults that are needed have a value, the body starts in a new scope, which holds the arguments
  and the values of the defaults in the first slots and nothing else (`Closure.scope`).
* If the first parameter without an argument and without a default is reached, it is reported.

Before the body starts, nothing is evaluated in the call's scope.

The slots are those of the parameters, since the shape that the resolver gave to the function has one for
each of them, whatever their names are (`Program.Occurs.length_params_le`). While a default runs, nobody
knows the call's scope (`Store.Pending`), so that it is afterwards as it was before.
-/

namespace SlotScript

/-! ## The scope of a call -/

/-- The scope of a call with these values in its first slots. -/
def Closure.scope (closure : Closure) (values : List Value) : Scope where
  kind := closure.frame.kind
  vars := (values.map some ++ List.replicate (closure.frame.vars - values.length) none).toArray
  consts := Array.replicate closure.frame.consts none
  parent := some closure.captured

/-- The store in which a call has bound its arguments. -/
def Closure.enter (closure : Closure) (args : List Value) (store : Store) : Store :=
  { store with scopes := store.scopes.push (closure.scope args) }

/-- The value that an evaluation gives to whoever called for it. -/
def Flow.given? : Flow → Option Value
  | .normal value | .ret value => some value
  | .breakLoop | .continueLoop => none

/-- The defaults of the parameters, evaluated one after the other in the scope of the definition, come to
the values. Each value is put into its parameter's slot of the call's scope before the next is evaluated. -/
inductive Closure.Defaulted (closure : Closure) (frame : ScopeId) :
    (slot : Nat) → List Param → Store → List Value → Store → Prop
  | nil {slot : Nat} {store : Store} : Defaulted closure frame slot [] store [] store
  | cons {slot limit : Nat} {param : Param} {rest : List Param} {node : Node} {flow : Flow}
      {value : Value} {values : List Value} {store middle after : Store} :
      param.default = some node →
      Machine.evaluate limit node closure.captured store = .finished flow middle →
      flow.given? = some value →
      Defaulted closure frame (slot + 1) rest (middle.write (.slot frame slot .var) value) values after →
      Defaulted closure frame slot (param :: rest) store (value :: values) after

section Calls

variable {store after : Store} {closure : Closure} {frame : ScopeId} {values args : List Value}

namespace Closure

theorem scope_nil (closure : Closure) :
    closure.scope [] = .ofShape closure.frame (some closure.captured) := by
  simp [scope, Scope.ofShape]

/-- The next value goes into the next slot. -/
theorem write_scope (value : Value) (h : values.length < closure.frame.vars) :
    (closure.scope values).write .var values.length value = closure.scope (values ++ [value]) := by
  have hspare : closure.frame.vars - values.length =
      closure.frame.vars - (values.length + 1) + 1 := by omega
  simp only [scope, Scope.write, List.setIfInBounds_toArray, List.map_append, List.map_cons, List.map_nil,
    List.length_append, List.length_singleton, hspare, List.replicate_succ]
  rw [List.set_append_right _ _ (by simp)]
  simp

end Closure

namespace Store

theorem cell?_scope {slot : Nat} {name : String} (hframe : store.scopes[frame]? = some (closure.scope values))
    (hslot : slot < closure.frame.vars) (hvalues : values.length ≤ slot) :
    store.cell? frame (.slot 0 slot .var) name = some (.slot frame slot .var) := by
  have hsize : slot < ((closure.scope values).slots .var).size := by
    show slot < (values.map some ++ List.replicate (closure.frame.vars - values.length) none).toArray.size
    simp only [List.size_toArray, List.length_append, List.length_map, List.length_replicate]
    omega
  simp only [cell?, ancestor, hframe, if_pos hsize]

theorem scopes_write_scope (value : Value) (hframe : store.scopes[frame]? = some (closure.scope values))
    (h : values.length < closure.frame.vars) :
    (store.write (.slot frame values.length .var) value).scopes[frame]? =
      some (closure.scope (values ++ [value])) := by
  show (store.scopes.modify frame _)[frame]? = _
  rw [Array.getElem?_modify, if_pos rfl, hframe, Option.map_some, Closure.write_scope value h]

theorem write_enter (value : Value) (h : values.length < closure.frame.vars) :
    (closure.enter values store).write (.slot store.scopes.size values.length .var) value =
      closure.enter (values ++ [value]) store := by
  simp only [Closure.enter, write, mk.injEq, and_true]
  refine Array.ext_getElem? fun id => ?_
  rw [Array.getElem?_modify, Array.getElem?_push, Array.getElem?_push]
  by_cases hid : id = store.scopes.size
  · rw [if_pos hid.symm, if_pos hid, if_pos hid, Option.map_some, Closure.write_scope value h]
  · rw [if_neg (Ne.symm hid), if_neg hid, if_neg hid]

/-- Only the call knows the scope in which it has bound its arguments. -/
theorem Closed.pending_enter (h : store.Closed) (hcaptured : closure.captured < store.scopes.size)
    (hslots : closure.params.length ≤ closure.frame.vars) (hargs : args.length ≤ closure.params.length) :
    (closure.enter args store).Pending closure store.scopes.size args.length
      (closure.params.length - args.length) := by
  induction args using List.reverseRecOn with
  | nil =>
    rw [Closure.enter, Closure.scope_nil]
    exact h.pending hcaptured
  | append_singleton args arg ih =>
    simp only [List.length_append, List.length_singleton] at hargs ⊢
    have hlt : args.length < closure.frame.vars := by omega
    have hleft : closure.params.length - args.length = closure.params.length - (args.length + 1) + 1 := by
      omega
    have hpending := ih (by omega)
    rw [hleft] at hpending
    have hframe : (closure.enter args store).scopes[store.scopes.size]? = some (closure.scope args) := by
      simp [Closure.enter]
    have hcell : (closure.enter args store).cell? store.scopes.size (.slot 0 args.length .var) "" =
        some (.slot store.scopes.size args.length .var) := cell?_scope hframe hlt (Nat.le_refl _)
    have hbind := hpending.bind hcell arg
    rwa [write_enter arg hlt] at hbind

end Store

/-! ## Binding the arguments -/

namespace Machine

variable {site : Option Span} {stack : List Waiting}

theorem bindParams_args {params : List Param} (hslots : values.length + params.length ≤ closure.frame.vars)
    (hargs : args.length ≤ params.length) :
    bindParams closure store.scopes.size site stack values.length params args (closure.enter values store) =
      bindParams closure store.scopes.size site stack (values ++ args).length (params.drop args.length) []
        (closure.enter (values ++ args) store) := by
  induction args generalizing values params with
  | nil => simp
  | cons arg args ih =>
    cases params with
    | nil => simp at hargs
    | cons param rest =>
      simp only [List.length_cons] at hslots hargs
      have hlt : values.length < closure.frame.vars := by omega
      have hframe : (closure.enter values store).scopes[store.scopes.size]? =
          some (closure.scope values) := by simp [Closure.enter]
      have hnext := @ih (values ++ [arg]) rest (by simp; omega) (by omega)
      simp only [bindParams, Store.cell?_scope hframe hlt (Nat.le_refl _), Store.write_enter arg hlt]
      simpa using hnext

/-- A call binds its arguments at once. -/
theorem call_args (hslots : closure.params.length ≤ closure.frame.vars)
    (hargs : args.length ≤ closure.params.length) :
    call closure args site stack store =
      bindParams closure store.scopes.size site stack args.length (closure.params.drop args.length) []
        (closure.enter args store) := by
  have hbind := @bindParams_args store closure [] args site stack closure.params (by simpa using hslots) hargs
  rw [List.nil_append, Closure.enter, Closure.scope_nil] at hbind
  rw [call, if_neg (Nat.not_lt_of_le hargs)]
  exact hbind

/-! ## Evaluating the defaults -/

/-- The machine evaluates nothing in the scope. -/
def Avoids (frame : ScopeId) (m : Machine) : Prop := ∀ node, m.control ≠ .eval node frame

/-- A default runs without its call's scope, which is afterwards as it was before. -/
theorem leads_default (stack : List Waiting) {node : Node} {flow : Flow} {middle : Store} {limit slot left : Nat}
    (hpending : store.Pending closure frame slot left) (hframe : frame < store.scopes.size)
    (hrun : evaluate limit node closure.captured store = .finished flow middle) :
    (Step.eval node closure.captured stack store).LeadsThrough (Avoids frame)
        (.deliver flow stack middle) ∧
      middle.scopes[frame]? = store.scopes[frame]? ∧ middle.Pending closure frame slot left := by
  have hfresh : ∀ id, store.scopes.size ≤ id → id ≠ frame := by
    rintro id hid rfl
    exact absurd hframe (Nat.not_lt_of_le hid)
  have hstart : (Step.eval node closure.captured [] store).Confined (· ≠ frame) store :=
    ⟨hpending.unknown, by simp, hpending.captured⟩
  obtain ⟨hchain, hend⟩ := (Step.leads_of_evaluate hrun).through (·.Confined (· ≠ frame) store)
    hstart fun m => confined_step hfresh
  have hconfined : middle.Confined (· ≠ frame) store := hend
  have hsame : middle.scopes[frame]? = store.scopes[frame]? := hconfined.rest frame fun hne => hne rfl
  refine ⟨hchain.onto stack ?_, hsame, hconfined.rebase, hpending.captured, ?_, hpending.count⟩
  · rintro ⟨control, stack, store⟩ hm node' rfl
    exact hm.2.2 rfl
  · intro index slotClass value hread
    rw [Store.read, hsame] at hread
    exact hpending.bound index slotClass value hread

/-- The value of a default is bound, and the next parameter is looked at. -/
theorem step_default {flow : Flow} {value : Value} {slot : Nat} {name : String} {rest : List Param}
    (hframe : store.scopes[frame]? = some (closure.scope values)) (hslot : slot < closure.frame.vars)
    (hvalues : values.length ≤ slot) (hflow : flow.given? = some value) :
    Machine.step ⟨.deliver flow, .default closure frame slot name rest site :: stack, store⟩ =
      bindParams closure frame site stack (slot + 1) rest [] (store.write (.slot frame slot .var) value) := by
  have hresume : resume (.default closure frame slot name rest site) value stack store =
      bindParams closure frame site stack (slot + 1) rest [] (store.write (.slot frame slot .var) value) := by
    simp only [resume, Store.cell?_scope hframe hslot hvalues]
  cases flow with
  | normal found =>
    cases hflow
    exact hresume
  | ret found =>
    cases hflow
    exact hresume
  | breakLoop | continueLoop => cases hflow

/-- **Defaults are bound one after the other**, and nothing is evaluated in the call's scope. -/
theorem leads_defaults (site : Option Span) (stack : List Waiting) {slot left : Nat} {params : List Param}
    (more : List Param) {given : List Value}
    (hdefaulted : closure.Defaulted frame slot params store given after)
    (hslots : closure.params.length ≤ closure.frame.vars) (hslot : values.length = slot)
    (hleft : left = (params ++ more).length) (hpending : store.Pending closure frame slot left)
    (hframe : store.scopes[frame]? = some (closure.scope values)) :
    (bindParams closure frame site stack slot (params ++ more) [] store).LeadsThrough (Avoids frame)
        (bindParams closure frame site stack (slot + params.length) more [] after) ∧
      after.scopes[frame]? = some (closure.scope (values ++ given)) := by
  induction hdefaulted generalizing values left with
  | nil => exact ⟨.refl, by simpa using hframe⟩
  | @cons slot limit param rest node flow value given store middle after hdefault hrun hflow _ ih =>
    subst hslot
    simp only [List.cons_append, List.length_cons] at hleft
    subst hleft
    have hcount := hpending.count
    have hlt : values.length < closure.frame.vars := by omega
    have hsize : frame < store.scopes.size := (Array.getElem?_eq_some_iff.1 hframe).1
    obtain ⟨hchain, hsame, hmiddle⟩ := leads_default
      (.default closure frame values.length param.name (rest ++ more) site :: stack)
      hpending hsize hrun
    rw [hframe] at hsame
    have hcell : middle.cell? frame (.slot 0 values.length .var) param.name =
        some (.slot frame values.length .var) := Store.cell?_scope hsame hlt (Nat.le_refl _)
    have hbind : Machine.step ⟨.deliver flow,
        .default closure frame values.length param.name (rest ++ more) site :: stack, middle⟩ =
          bindParams closure frame site stack (values.length + 1) (rest ++ more) []
            (middle.write (.slot frame values.length .var) value) :=
      step_default hsame hlt (Nat.le_refl _) hflow
    have hlength : (values ++ [value]).length = values.length + 1 := by simp
    obtain ⟨hrest, hend⟩ := ih hlength rfl (hmiddle.bind hcell value)
      (Store.scopes_write_scope value hsame hlt)
    have hfirst : bindParams closure frame site stack values.length (param :: (rest ++ more)) [] store =
        .eval node closure.captured
          (.default closure frame values.length param.name (rest ++ more) site :: stack) store := by
      simp only [bindParams, hdefault]
    refine ⟨?_, by simpa using hend⟩
    rw [List.cons_append, hfirst, List.length_cons, Nat.add_comm rest.length, ← Nat.add_assoc]
    exact hchain.trans (.trans (.step (fun node' hcontrol => by cases hcontrol) hbind) hrest)

end Machine

end Calls

/-! ## Function values of a program -/

/-- A function that the resolver has seen has slots for all of its parameters. -/
theorem Program.Occurs.length_params_le {raw program : Program} (hp : raw.resolve = .ok program)
    {chain : List Region} {name : String} {binding : Option VarRef} {params : List Param} {body : Node}
    {frame : Shape} {span : Span}
    (h : program.Occurs chain (.define name binding params body frame span)) :
    params.length ≤ frame.vars := by
  obtain ⟨-, hfits⟩ := h.settled hp
  cases hlast : params[params.length - 1]? with
  | none =>
    rw [List.getElem?_eq_none_iff] at hlast
    omega
  | some param =>
    -- the slot of the last parameter is one of the frame's
    have hmem := mem_slots hlast 0
    have hlt := hfits.lt_size (List.mem_append_right body.declared hmem)
    rw [Nat.zero_add] at hlt
    exact Nat.le_of_pred_lt hlt

/-- The values that a flow carries. -/
def Flow.values : Flow → List Value
  | .normal value | .ret value => [value]
  | .breakLoop | .continueLoop => []

/-- The values that are kept on the stack. -/
def Waiting.values : Waiting → List Value
  | .right _ value _ => [value]
  | .loopCond _ last _ | .loopBody _ last | .loopStep _ last => [last]
  | .argument closure done _ _ _ => .function closure :: done
  | .default closure _ _ _ _ _ => [.function closure]
  | _ => []

/-- A value that is somewhere at the moment. -/
inductive Moment.Has (a : Moment) (value : Value) : Prop
  /-- The host was given it. -/
  | known : value ∈ a.known → Has a value
  /-- It is the value of a variable. -/
  | stored {cell : Cell} : a.step.store.read cell = some value → Has a value
  /-- It is what has just been evaluated. -/
  | delivered {flow : Flow} {stack : List Waiting} {store : Store} :
      a.step = .next ⟨.deliver flow, stack, store⟩ → value ∈ flow.values → Has a value
  /-- It is what a statement or a call came to. -/
  | ended {flow : Flow} {store : Store} : a.step = .done flow store → value ∈ flow.values → Has a value
  /-- It is kept for later. -/
  | waiting {m : Machine} {waiting : Waiting} :
      a.step = .next m → waiting ∈ m.stack → value ∈ waiting.values → Has a value

/-- What the host knows when a program or a call has ended is there. -/
theorem Moment.has_of_ended {a : Moment} {known : List Value} (h : a.ended? = some known) {value : Value}
    (hvalue : value ∈ known) : a.Has value := by
  obtain ⟨step, rest, before, regions, accesses⟩ := a
  cases step with
  | next m => cases h
  | failed error store =>
    cases h
    exact .known hvalue
  | done flow store =>
    have hended : ∀ {found}, found ∈ flow.values → value ∈ found :: before →
        Moment.Has ⟨.done flow store, rest, before, regions, accesses⟩ value := by
      intro found hfound hmem
      rcases List.mem_cons.1 hmem with rfl | hmem
      · exact .ended rfl hfound
      · exact .known hmem
    cases flow with
    | normal found =>
      cases rest with
      | nil =>
        cases h
        exact hended List.mem_cons_self hvalue
      | cons node rest => cases h
    | ret found =>
      cases h
      exact hended List.mem_cons_self hvalue
    | breakLoop | continueLoop =>
      cases h
      exact .known hvalue

section Sessions

variable {program : Program} {seeds : List (String × Value)} {a b : Moment}

theorem Flow.Live.value {heap : Heap} {flow : Flow} (h : flow.Live program heap) {value : Value}
    (hvalue : value ∈ flow.values) : value.Live program heap := by
  cases flow with
  | normal found | ret found =>
    rw [List.mem_singleton.1 hvalue]
    exact h
  | breakLoop | continueLoop => cases hvalue

theorem Waiting.Ready.value {heap : Heap} {waiting : Waiting} (h : waiting.Ready program heap)
    {value : Value} (hvalue : value ∈ waiting.values) : value.Live program heap := by
  cases waiting with
  | right op held span =>
    rw [List.mem_singleton.1 hvalue]
    exact h
  | loopCond loop last span | loopBody loop last | loopStep loop last =>
    rw [List.mem_singleton.1 hvalue]
    exact h.2
  | argument closure done rest scope span =>
    rcases List.mem_cons.1 hvalue with rfl | hdone
    · exact h.1
    · exact h.2.1 value hdone
  | default closure frame slot name rest site =>
    obtain ⟨param, -, chain, binding, before, hoccurs, hlineage, -⟩ := h
    rw [List.mem_singleton.1 hvalue]
    exact ⟨chain, binding, hoccurs, hlineage⟩
  | _ => cases hvalue

/-- Every value that is somewhere was made by the program. -/
theorem Moment.Right.live (h : a.Right program) {value : Value} (hvalue : a.Has value) :
    value.Live program ⟨a.regions, a.step.store⟩ := by
  have hstep := h.step
  cases hvalue with
  | known hmem => exact h.known value hmem
  | stored hread => exact hstep.sound.values _ value hread
  | delivered hs hmem =>
    rw [hs] at hstep ⊢
    exact hstep.2.value hmem
  | ended hs hmem =>
    rw [hs] at hstep ⊢
    exact hstep.2.value hmem
  | @waiting m waiting hs hwaiting hmem =>
    obtain ⟨control, stack, store⟩ := m
    rw [hs] at hstep ⊢
    have hcarries : Heap.Carries program ⟨a.regions, store⟩ stack := by
      cases control <;> exact hstep.1
    exact (hcarries.stack waiting hwaiting).value hmem

/-- What was made by the program has captured a scope that is there. -/
theorem Value.Live.confined {heap : Heap} {value : Value} (h : value.Live program heap) :
    value.Confined (· < heap.store.scopes.size) := by
  cases value with
  | function closure =>
    obtain ⟨_, _, -, hlineage⟩ := h
    refine Value.confined_function.2 ?_
    cases hlineage with
    | root hscope | child hscope => exact (Array.getElem?_eq_some_iff.1 hscope).1
  | _ => exact Value.confined_of_isPlain rfl

/-- What comes next in a session is a move. -/
theorem Moment.Next.move (hright : a.Right program) (h : a.Next b) : a.step.Move b.step := by
  cases h with
  | step hs =>
    rw [hs]
    exact .step
  | @statement value store node rest hs hrest =>
    have hroot := hright.root
    rw [hs] at hroot ⊢
    have hscope : 0 < store.scopes.size := by
      cases hroot with
      | root hscope | child hscope => exact (Array.getElem?_eq_some_iff.1 hscope).1
    exact .eval rfl hscope
  | @call known args closure hended hclosure hargs =>
    have hconfined : ∀ value ∈ known, value.Confined (· < a.step.store.scopes.size) :=
      fun value hmem => (hright.ended hended value hmem).confined
    refine .call ?_ (Value.confined_function.1 (hconfined _ hclosure)) fun arg harg => ?_
    · cases hstep : a.step with
      | next m =>
        rw [Moment.ended?, hstep] at hended
        cases hended
      | done | failed => rfl
    · rcases hargs arg harg with hplain | hmem
      · exact Value.confined_of_isPlain hplain
      · exact hconfined arg hmem

/-- The machine of a session mentions only what is there. -/
theorem Session.sealed {raw : Program} (hp : raw.resolve = .ok program)
    (hseeds : PlainSeeds seeds) (h : Session program seeds a) : a.step.Sealed := by
  induction h with
  | refl => exact .of_store ((Store.closed_seeded hseeds).openScope program.shape)
  | tail ha hnext ih =>
    have ha : Session program seeds _ := ha
    exact (hnext.move (ha.right hp hseeds)).sealed ih

end Sessions

/-- **A call binds its parameters in order.** At any moment of a session, any function value that there is
is called with any arguments, by the program or by the host. The global names are plain (`PlainSeeds`), so
that all functions there are were made in the session, and their scopes are scopes of its store. -/
theorem Session.call_binds {source : String} {program : Program} {seeds : List (String × Value)}
    {a : Moment} {closure : Closure} {args : List Value} (hsource : compile source = .ok program)
    (hseeds : PlainSeeds seeds) (ha : Session program seeds a)
    (hclosure : a.Has (.function closure)) (site : Option Span) (stack : List Waiting) :
    (closure.params.length < args.length → Machine.call closure args site stack a.step.store =
      .failed ⟨.tooManyArguments closure.name closure.params.length args.length, site⟩ a.step.store) ∧
    (args.length ≤ closure.params.length →
      let frame := a.step.store.scopes.size
      (∀ values after, closure.Defaulted frame args.length (closure.params.drop args.length)
          (closure.enter args a.step.store) values after →
        (Machine.call closure args site stack a.step.store).LeadsThrough (Machine.Avoids frame)
          (.eval closure.body frame (.body site :: stack) after) ∧
        after.scopes[frame]? = some (closure.scope (args ++ values))) ∧
      ∀ before param rest values after, closure.params.drop args.length = before ++ param :: rest →
        param.default = none →
        closure.Defaulted frame args.length before (closure.enter args a.step.store) values after →
        (Machine.call closure args site stack a.step.store).LeadsThrough (Machine.Avoids frame)
          (.failed ⟨.missingArgument closure.name param.name, site⟩ after)) := by
  obtain ⟨raw, hp⟩ := resolve_of_compile hsource
  obtain ⟨chain, binding, hoccurs, hlineage⟩ := (ha.right hp hseeds).live hclosure
  have hslots : closure.params.length ≤ closure.frame.vars := hoccurs.length_params_le hp
  refine ⟨fun hmany => ?_, fun hargs => ?_⟩
  · rw [Machine.call, if_pos hmany]
    rfl
  · intro frame
    have hcall : Machine.call closure args site stack a.step.store = _ := Machine.call_args hslots hargs
    have hpending : (closure.enter args a.step.store).Pending closure frame args.length
        (closure.params.drop args.length).length := by
      rw [List.length_drop]
      exact (ha.sealed hp hseeds).store.pending_enter
        (Value.confined_function.1 (Value.Live.confined ⟨chain, binding, hoccurs, hlineage⟩)) hslots hargs
    have hframe : (closure.enter args a.step.store).scopes[frame]? = some (closure.scope args) := by
      simp [Closure.enter, frame]
    rw [hcall]
    constructor
    · intro values after hdefaulted
      have hdefaults := Machine.leads_defaults site stack [] hdefaulted hslots
        rfl (by simp) hpending hframe
      rwa [List.append_nil] at hdefaults
    · intro before param rest values after hparams hdefault hdefaulted
      rw [hparams] at hpending ⊢
      have hdefaults := Machine.leads_defaults site stack (param :: rest)
        hdefaulted hslots rfl rfl hpending hframe
      have hmissing : Machine.bindParams closure frame site stack (args.length + before.length)
          (param :: rest) [] after = .failed ⟨.missingArgument closure.name param.name, site⟩ after := by
        rw [Machine.bindParams]
        simp only [hdefault]
        rfl
      rw [hmissing] at hdefaults
      exact hdefaults.1

/-- `def(a, b = n) { b }`, made in the scope of a program. -/
def Closure.pair : Closure where
  id := 0
  name := "anon#0"
  params := [.mk "a" none ⟨11, 12⟩,
    .mk "b" (some (.ident "n" ⟨.reference, .slot 0 0 .var⟩ ⟨18, 19⟩)) ⟨14, 19⟩]
  body := .block [.ident "b" ⟨.reference, .slot 0 1 .var⟩ ⟨23, 24⟩] ⟨21, 26⟩
  frame := ⟨.function, 2, 0⟩
  captured := 0
  span := ⟨7, 26⟩

/-- `n = 1; def(a, b = n) { b }` -/
def Program.pair : Program where
  body := [.assign "n" ⟨.declare, .slot 0 0 .var⟩ .plain none (.int 1 ⟨4, 5⟩) ⟨0, 5⟩,
    .define Closure.pair.name none Closure.pair.params Closure.pair.body Closure.pair.frame
      Closure.pair.span]
  shape := ⟨.program, 1, 0⟩

/-- The host calls the function with one argument; the other one comes from the default. -/
theorem Session.call_binds_pair : ∃ a after,
    compile "n = 1; def(a, b = n) { b }" = .ok Program.pair ∧ Session Program.pair [] a ∧
    a.Has (.function Closure.pair) ∧
    Closure.pair.Defaulted 1 1 (Closure.pair.params.drop 1) (Closure.pair.enter [.int 7] a.step.store)
      [.int 1] after ∧
    (Machine.call Closure.pair [.int 7] none [] a.step.store).LeadsThrough (Machine.Avoids 1)
      (.eval Closure.pair.body 1 [.body none] after) ∧
    after.scopes[1]? = some (Closure.pair.scope [.int 7, .int 1]) := by
  have hsource : compile "n = 1; def(a, b = n) { b }" = .ok Program.pair := by cbv
  have hi : Program.pair.interpret 9 [] =
      (.value (.function Closure.pair), (Program.pair.interpret 9 []).2) := rfl
  obtain ⟨a, ha, hshows⟩ := (HostRun.interpret hi (by simp)).session
  have hhas : a.Has (.function Closure.pair) := Moment.has_of_ended hshows.known List.mem_cons_self
  have hstore : a.step.store = (Program.pair.interpret 9 []).2 := hshows.store
  have hdefaulted : Closure.pair.Defaulted 1 1 (Closure.pair.params.drop 1)
      (Closure.pair.enter [.int 7] a.step.store) [.int 1]
      ((Closure.pair.enter [.int 7] a.step.store).write (.slot 1 1 .var) (.int 1)) := by
    rw [hstore]
    have hrun : Machine.evaluate 9 (.ident "n" ⟨.reference, .slot 0 0 .var⟩ ⟨18, 19⟩) 0
        (Closure.pair.enter [.int 7] (Program.pair.interpret 9 []).2) =
          .finished (.normal (.int 1)) (Closure.pair.enter [.int 7] (Program.pair.interpret 9 []).2) := rfl
    exact .cons rfl hrun rfl .nil
  obtain ⟨-, hbinds⟩ := @Session.call_binds _ _ _ _ _ [.int 7] hsource (by decide) ha hhas none []
  have hsize : a.step.store.scopes.size = 1 := by
    rw [hstore]
    rfl
  rw [hsize] at hbinds
  obtain ⟨hleads, hscope⟩ := (hbinds (by decide)).1 [.int 1] _ hdefaulted
  exact ⟨a, _, hsource, ha, hhas, hdefaulted, hleads, hscope⟩

end SlotScript
