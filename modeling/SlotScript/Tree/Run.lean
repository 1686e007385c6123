import SlotScript.Tree
import SlotScript.Tree.Fault

/-!
# Runs of operands and operators

An expression is collected as a flat run of operands and operators before it becomes a tree. An
operator is *ready* when the operands it needs stand next to it: both sides for a binary
operator or a compound assignment, the right side for an operator in front of its operand, and
the right side or the end of the run for `return`. `assemble` folds a run by taking, again and
again, the ready operator of the greatest precedence, the leftmost of several, and putting one
operand in the place of it and its operands.
-/

namespace SlotScript

/-- An operator of a run. -/
inductive Operator where
  /-- Between two operands. -/
  | binary (op : BinaryOp)
  /-- A compound assignment to the name on its left. -/
  | compound (op : BinaryOp)
  /-- In front of its operand. -/
  | unary (op : UnaryOp)
  /-- `return`, whose operand may be missing. -/
  | ret
deriving DecidableEq, Repr

/-- An item of a run. -/
inductive RunItem where
  /-- A finished expression. -/
  | operand (node : Node)
  /-- An operator with its effective precedence. -/
  | operator (op : Operator) (precedence : Nat) (span : Span)

namespace RunItem

/-- Where the item stands. -/
def span : RunItem → Span
  | operand node => node.span
  | operator _ _ span => span

/-- Whether the item is an operator. -/
def isOperator : RunItem → Bool
  | operand _ => false
  | operator .. => true

end RunItem

/-- A run of operands and operators from left to right. -/
abbrev Run := List RunItem

namespace Run

/-- How many operators the run holds. -/
def operatorCount (run : Run) : Nat := run.countP RunItem.isOperator

/-- A compound assignment to what stands on its left, which has to be a name. -/
def compoundNode (op : BinaryOp) (target value : Node) (span : Span) : Except BuildError Node :=
  match target with
  | .ident name _ _ =>
    .ok (.assign name .unresolved .plain (some op) value
      ((target.span.merge value.span).merge span))
  | _ => .error { fault := .invalidTarget, span := target.span }

/-- If the first operator of the run is ready and nothing but its own operand stands before it:
its precedence, the node it makes, and the rest of the run. -/
def headRedex : Run → Option (Nat × Except BuildError Node × Run)
  | .operand left :: .operator (.binary op) p span :: .operand right :: rest =>
    some (p, .ok (.binary op left right ((left.span.merge right.span).merge span)), rest)
  | .operand target :: .operator (.compound op) p span :: .operand value :: rest =>
    some (p, compoundNode op target value span, rest)
  | .operator (.unary op) p span :: .operand operand :: rest =>
    some (p, .ok (.unary op operand (span.merge operand.span)), rest)
  | .operator .ret p span :: .operand value :: rest =>
    some (p, .ok (.ret (some value) (span.merge value.span)), rest)
  | [.operator .ret p span] => some (p, .ok (.ret none span), [])
  | _ => none

/-- The ready operator to fold next: its precedence and the run after the fold. Of several with
the greatest precedence the leftmost is taken. -/
def reduce : Run → Option (Nat × Except BuildError Run)
  | [] => none
  | item :: rest =>
    let later := (reduce rest).map fun (p, after) => (p, after.map (item :: ·))
    match headRedex (item :: rest), later with
    | some (p, node, after), some (p', after') =>
      if p < p' then some (p', after') else some (p, node.map (.operand · :: after))
    | some (p, node, after), none => some (p, node.map (.operand · :: after))
    | none, later => later

/-- The error for a run that cannot be folded any further: its first operator lacks an operand,
or, if there is none, two operands stand side by side. -/
def stuck (run : Run) : BuildError :=
  match run.find? RunItem.isOperator with
  | some item => { fault := .expected .operand, span := item.span }
  | none => { fault := .missingSeparator, span := (run[1]?.map RunItem.span).getD ⟨0, 0⟩ }

theorem operatorCount_headRedex {run after : Run} {p : Nat} {node : Except BuildError Node}
    (h : headRedex run = some (p, node, after)) : operatorCount after < operatorCount run := by
  unfold headRedex at h
  split at h <;> simp_all [operatorCount, RunItem.isOperator, List.countP_cons]

/-- Every fold removes an operator. -/
theorem operatorCount_reduce {run after : Run} {p : Nat}
    (h : reduce run = some (p, .ok after)) : operatorCount after < operatorCount run := by
  induction run generalizing p after with
  | nil => simp [reduce] at h
  | cons item rest ih =>
    have hlater : ∀ q r, ((reduce rest).map fun (p, after) => (p, after.map (item :: ·))) =
        some (q, .ok r) → operatorCount r < operatorCount (item :: rest) := by
      intro q r hr
      simp only [Option.map_eq_some_iff, Prod.exists, Prod.mk.injEq] at hr
      obtain ⟨a, b, hab, rfl, hb⟩ := hr
      cases b with
      | error e => simp [Except.map] at hb
      | ok b =>
        simp only [Except.map, Except.ok.injEq] at hb
        subst hb
        have := ih hab
        simp only [operatorCount, List.countP_cons] at this ⊢
        omega
    have hhead : ∀ q node r s, headRedex (item :: rest) = some (q, node, r) →
        node.map (RunItem.operand · :: r) = .ok s →
        operatorCount s < operatorCount (item :: rest) := by
      intro q node r s hq hs
      have := operatorCount_headRedex hq
      cases node with
      | error e => simp [Except.map] at hs
      | ok node =>
        simp only [Except.map, Except.ok.injEq] at hs
        subst hs
        simpa [operatorCount, RunItem.isOperator] using this
    simp only [reduce] at h
    split at h
    · rename_i p₁ node after₁ p₂ after₂ h₁ h₂
      split at h
      · simp only [Option.some.injEq, Prod.mk.injEq] at h
        obtain ⟨rfl, rfl⟩ := h
        exact hlater _ _ h₂
      · simp only [Option.some.injEq, Prod.mk.injEq] at h
        exact hhead _ _ _ _ h₁ h.2
    · rename_i p₁ node after₁ h₁ h₂
      simp only [Option.some.injEq, Prod.mk.injEq] at h
      exact hhead _ _ _ _ h₁ h.2
    · exact hlater _ _ h

/-- The tree of a run. -/
def assemble (run : Run) : Except BuildError Node :=
  match run with
  | [.operand node] => .ok node
  | run =>
    match _ : reduce run with
    | none => .error (stuck run)
    | some (_, .error e) => .error e
    | some (_, .ok after) => assemble after
termination_by operatorCount run
decreasing_by exact operatorCount_reduce (by assumption)

end Run

end SlotScript
