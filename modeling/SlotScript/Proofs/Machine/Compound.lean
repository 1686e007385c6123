import SlotScript.Proofs.Machine.Growth
import SlotScript.Proofs.Machine.Reach
import SlotScript.Proofs.Machine.Run

/-!
# Compound assignments and their expansions

`x += e` evaluates `e` first and reads `x` then; `x = x + e` reads `x` first. In between `e` may call
functions, open scopes and assign other variables, and it may assign `x` too.

**Theorem (`Machine.compound_expansion`).** If `e` ends normally and `x` has the same value before and
after it, both forms come to the same: to the same value, or to the same fault, in the same store.

Both forms evaluate `e` from the same store, with different things below it on the stack, so `e` ends in
one store (`Step.Leads.onto`). From there on both apply the operator to the same two values, and then
write the result to the same cell (`Machine.compoundEnd`).
-/

namespace SlotScript

/-- Both runs end, with the same store: in the same flow, or by the same fault, which they may blame on
different spans. -/
inductive Outcome.EndsLike : Outcome → Outcome → Prop
  | finished {flow : Flow} {store : Store} : EndsLike (.finished flow store) (.finished flow store)
  | failed {fault : Fault} {span span' : Option Span} {store : Store} :
      EndsLike (.failed ⟨fault, span⟩ store) (.failed ⟨fault, span'⟩ store)

namespace Machine

/-- Where an assignment ends that has applied the operator: the result is in the cell, or the operator
has failed. -/
def compoundEnd (op : BinaryOp) (held value : Value) (cell : Cell) (span : Span) (store : Store) : Step :=
  match applyBinary held value op with
  | .ok result => .done (.normal result) (store.write cell result)
  | .error fault => .failed ⟨fault, some span⟩ store

/-- A chain to the end of an assignment is a run that ends there. -/
theorem runAfter_compoundEnd {op : BinaryOp} {held value : Value} {cell : Cell} {span span' : Span}
    {store : Store} (limit limit' : Nat) :
    (runAfter limit (compoundEnd op held value cell span store)).EndsLike
      (runAfter limit' (compoundEnd op held value cell span' store)) := by
  simp only [compoundEnd]
  cases applyBinary held value op with
  | ok result => cases limit <;> cases limit' <;> exact .finished
  | error fault => cases limit <;> cases limit' <;> exact .failed

theorem isShortCircuit_of_compounds {op : BinaryOp} (h : op ∈ BinaryOp.compounds) :
    op.isShortCircuit = false := by
  cases op <;> first | rfl | (revert h; decide)

/-- An operator whose left operand cannot settle the result evaluates it first. -/
theorem step_binary {op : BinaryOp} (h : op.isShortCircuit = false) {left right : Node} {span : Span}
    {scope : ScopeId} {stack : List Waiting} {store : Store} :
    Machine.step ⟨.eval (.binary op left right span) scope, stack, store⟩ =
      .eval left scope (.left op right scope span :: stack) store := by
  simp only [Machine.step, start, h, Bool.false_eq_true, if_false]

section Chains

variable {store after : Store} {scope : ScopeId} {name : String} {place : Place} {op : BinaryOp}
  {cell : Cell} {held value : Value} {span : Span}

/-- A value that waits for nothing but its assignment is written. -/
theorem leads_write (hcell : after.cell? scope place name = some cell) :
    (Step.value value [.assign name place none scope span] after).Leads
      (.done (.normal value) (after.write cell value)) := by
  have hwrite : Machine.step ⟨.deliver (.normal value), [.assign name place none scope span], after⟩ =
      .value value [] (after.write cell value) := by
    show writeVar name place value scope span [] after = _
    rw [writeVar, hcell]
  exact (Step.Leads.step hwrite).trans (Step.Leads.step rfl)

/-- With the value of its right side, a compound assignment applies the operator and writes. -/
theorem leads_update (hlookup : after.lookup scope place name = .ok held)
    (hcell : after.cell? scope place name = some cell) :
    (Step.value value [.assign name place (some op) scope span] after).Leads
      (compoundEnd op held value cell span after) := by
  have hupdate : Machine.step ⟨.deliver (.normal value), [.assign name place (some op) scope span],
      after⟩ = updateVar name place op value scope span [] after := rfl
  rw [updateVar, hlookup] at hupdate
  unfold compoundEnd
  cases happly : applyBinary held value op with
  | error fault =>
    simp only [happly] at hupdate
    exact .step hupdate
  | ok result =>
    simp only [happly, writeVar, hcell] at hupdate
    exact (Step.Leads.step hupdate).trans (Step.Leads.step rfl)

/-- With the values of both operands, an operator is applied, and the result is written. -/
theorem leads_apply (hcell : after.cell? scope place name = some cell) {assignSpan : Span} :
    (Step.value value [.right op held span, .assign name place none scope assignSpan] after).Leads
      (compoundEnd op held value cell span after) := by
  have happly : Machine.step ⟨.deliver (.normal value),
      [.right op held span, .assign name place none scope assignSpan], after⟩ =
        .result (applyBinary held value op) span [.assign name place none scope assignSpan] after := rfl
  unfold compoundEnd
  cases hresult : applyBinary held value op with
  | error fault =>
    rw [hresult] at happly
    exact .step happly
  | ok result =>
    rw [hresult] at happly
    exact (Step.Leads.step happly).trans (leads_write hcell)

variable {e : Node} (heval : ∀ stack, (Step.eval e scope stack store).Leads (.value value stack after))

include heval

/-- A compound assignment evaluates its right side, and reads the variable then. -/
theorem leads_compound (hlookup : after.lookup scope place name = .ok held)
    (hcell : after.cell? scope place name = some cell) {kind : RefKind} {decl : DeclKind} :
    (Step.eval (.assign name ⟨kind, place⟩ decl (some op) e span) scope [] store).Leads
      (compoundEnd op held value cell span after) := by
  have hassign : (Step.eval (.assign name ⟨kind, place⟩ decl (some op) e span) scope [] store).Leads
      (.eval e scope [.assign name place (some op) scope span] store) := .step rfl
  exact hassign.trans <| (heval _).trans <| leads_update hlookup hcell

/-- The expansion reads the variable, and evaluates the right side then. -/
theorem leads_expansion (hop : op ∈ BinaryOp.compounds) (hlookup : store.lookup scope place name = .ok held)
    (hcell : after.cell? scope place name = some cell) {kind occurrence : RefKind} {decl : DeclKind}
    {assignSpan identSpan : Span} :
    (Step.eval (.assign name ⟨kind, place⟩ decl none (.binary op (.ident name ⟨occurrence, place⟩ identSpan)
      e span) assignSpan) scope [] store).Leads (compoundEnd op held value cell span after) := by
  let read : Node := .ident name ⟨occurrence, place⟩ identSpan
  let written : Waiting := .assign name place none scope assignSpan
  have hassign : (Step.eval (.assign name ⟨kind, place⟩ decl none (.binary op read e span) assignSpan) scope
      [] store).Leads (.eval (.binary op read e span) scope [written] store) := .step rfl
  have hbinary : (Step.eval (.binary op read e span) scope [written] store).Leads
      (.eval read scope [.left op e scope span, written] store) :=
    .step (step_binary (isShortCircuit_of_compounds hop))
  have hread : (Step.eval read scope [.left op e scope span, written] store).Leads
      (.value held [.left op e scope span, written] store) := .step (by
    show readVar name place scope identSpan _ store = _
    rw [readVar, hlookup])
  have hright : (Step.value held [.left op e scope span, written] store).Leads
      (.eval e scope [.right op held span, written] store) := .step rfl
  exact hassign.trans <| hbinary.trans <| hread.trans <| hright.trans <| (heval _).trans <| leads_apply hcell

end Chains

/-- **A compound assignment agrees with its expansion.** The variable is in a slot that has a value, and
`e` ends normally and leaves this value there. Then both forms end, with the same value in the same store,
or by the same fault. -/
theorem compound_expansion {store after : Store} {scope : ScopeId} {name : String}
    {distance index limit : Nat} {slotClass : SlotClass} {held value : Value} {op : BinaryOp} {e : Node}
    (hop : op ∈ BinaryOp.compounds)
    (hheld : store.lookup scope (.slot distance index slotClass) name = .ok held)
    (he : evaluate limit e scope store = .finished (.normal value) after)
    (hkept : after.lookup scope (.slot distance index slotClass) name = .ok held)
    (kind kind' occurrence : RefKind) (decl decl' : DeclKind)
    (span assignSpan binarySpan identSpan : Span) :
    ∃ bound, ∀ limit, bound ≤ limit →
      (evaluate limit (.assign name ⟨kind, .slot distance index slotClass⟩ decl (some op) e span)
        scope store).EndsLike
      (evaluate limit (.assign name ⟨kind', .slot distance index slotClass⟩ decl' none
        (.binary op (.ident name ⟨occurrence, .slot distance index slotClass⟩ identSpan) e binarySpan)
        assignSpan) scope store) := by
  obtain ⟨cell, hcell, -⟩ := Store.read_of_lookup hkept
  have heval := fun stack => (Step.leads_of_evaluate he).onto stack
  have hcompound : (Step.eval (.assign name ⟨kind, .slot distance index slotClass⟩ decl (some op) e span)
      scope [] store).Leads (compoundEnd op held value cell span after) :=
    leads_compound heval hkept hcell
  have hexpansion : (Step.eval (.assign name ⟨kind', .slot distance index slotClass⟩ decl' none
      (.binary op (.ident name ⟨occurrence, .slot distance index slotClass⟩ identSpan) e binarySpan)
      assignSpan) scope [] store).Leads (compoundEnd op held value cell binarySpan after) :=
    leads_expansion heval hop hheld hcell
  obtain ⟨n, hn⟩ := hcompound.runAfter_of_le
  obtain ⟨n', hn'⟩ := hexpansion.runAfter_of_le
  refine ⟨max n n', fun limit hlimit => ?_⟩
  have hends : (runAfter (limit - n) (compoundEnd op held value cell span after)).EndsLike
      (runAfter (limit - n') (compoundEnd op held value cell binarySpan after)) := runAfter_compoundEnd _ _
  rwa [← hn limit (Nat.le_trans (Nat.le_max_left n n') hlimit),
    ← hn' limit (Nat.le_trans (Nat.le_max_right n n') hlimit)] at hends

end Machine

/-- The scope of a program with a number `x` and a function `f` that returns it. -/
def Store.getter : Store where
  scopes := #[⟨.program, #[some (.int 9), some (.function ⟨0, "f", [],
    .block [.ident "x" ⟨.reference, .slot 1 0 .var⟩ ⟨18, 19⟩] ⟨16, 21⟩, ⟨.function, 0, 0⟩, 0, ⟨7, 21⟩⟩)],
    #[], none⟩]
  closures := 1

/-- `x -= f()` and `x = x - f()`: the right side calls a function that reads `x`. -/
theorem Machine.compound_expansion_getter :
    let place : Place := .slot 0 0 .var
    let call : Node := .call (.ident "f" ⟨.reference, .slot 0 1 .var⟩ ⟨28, 29⟩) [] ⟨28, 31⟩
    BinaryOp.sub ∈ BinaryOp.compounds ∧ Store.getter.lookup 0 place "x" = .ok (.int 9) ∧
    ∃ after, evaluate 99 call 0 Store.getter = .finished (.normal (.int 9)) after ∧
      after.lookup 0 place "x" = .ok (.int 9) ∧
      ∃ bound, ∀ limit, bound ≤ limit →
        (evaluate limit (.assign "x" ⟨.reference, place⟩ .plain (some .sub) call ⟨23, 31⟩) 0
          Store.getter).EndsLike
        (evaluate limit (.assign "x" ⟨.reference, place⟩ .plain none
          (.binary .sub (.ident "x" ⟨.reference, place⟩ ⟨27, 28⟩) call ⟨27, 35⟩) ⟨23, 35⟩) 0
          Store.getter) := by
  intro place call
  have hrun : evaluate 99 call 0 Store.getter =
      .finished (.normal (.int 9)) (evaluate 99 call 0 Store.getter).store := rfl
  exact ⟨by decide, rfl, _, hrun, rfl, compound_expansion (by decide) rfl hrun rfl
    .reference .reference .reference .plain .plain ⟨23, 31⟩ ⟨23, 35⟩ ⟨27, 35⟩ ⟨27, 28⟩⟩

end SlotScript
