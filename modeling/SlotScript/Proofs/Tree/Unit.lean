import SlotScript.Proofs.Tree.Fold

/-!
# A stretch of a run that folds first

A run is folded by its tightest operators, wherever they stand. So a stretch of it in which every
operator binds tighter than the operators at its two ends becomes one operand before anything
outside can touch it.

**Theorem (`assemble_middle`).** If a run folds to a tree, such a stretch folds to a tree of its
own, and with that tree in its place as one operand the run folds to the same tree.

The stretch has to be an expression: `follow` reads a run from left to right and knows whether an
operand has just ended. Every run that folds is read to its end, so its operands and operators
alternate. The proof of the theorem goes along the folds. `locate` says where a ready operator
stands: in the run before the stretch, in the stretch, in the run behind it, or at one of its ends,
where it binds too loosely to be taken.
-/

namespace SlotScript

/-- Whether the operator stands between two operands. -/
def Operator.isInfix : Operator → Bool
  | .binary _ | .compound _ => true
  | .unary _ | .ret => false

namespace Run

/-! ## Operands and operators alternate -/

/-- Reads a run from left to right: whether an operand has just ended, before and after. Two
operands side by side cannot be read, nor an operator that lacks its left operand or has one that
it does not take. -/
def follow (ended : Bool) : Run → Option Bool
  | [] => some ended
  | .operand _ :: rest => if ended then none else follow true rest
  | .operator op _ _ :: rest => if op.isInfix = ended then follow false rest else none

theorem follow_operator {ended ended' : Bool} {op : Operator} {p : Nat} {span : Span} {rest : Run} :
    follow ended (.operator op p span :: rest) = some ended' ↔
      op.isInfix = ended ∧ follow false rest = some ended' := by
  by_cases h : op.isInfix = ended <;> simp [follow, h]

theorem follow_append (ended : Bool) (run rest : Run) :
    follow ended (run ++ rest) = (follow ended run).bind (follow · rest) := by
  induction run generalizing ended with
  | nil => rfl
  | cons item run ih =>
    cases item with
    | operand node => cases ended <;> simp [follow, ih]
    | operator op p span => by_cases h : op.isInfix = ended <;> simp [follow, h, ih]

/-- A ready operator starts where no operand has ended, and reading past it is reading past the one
operand that it becomes; only a `return` at the end of the run waits for an operand still. -/
theorem follow_headRedex {run rest : Run} {p : Nat} {node : Except BuildError Node}
    (h : headRedex run = some (p, node, rest)) :
    follow true run = none ∧
      (follow false run = follow true rest ∨ rest = [] ∧ follow false run = some false) := by
  unfold headRedex at h
  split at h <;> simp_all [follow, Operator.isInfix]

/-- A run that folds to a tree can be read to its end. -/
theorem follow_of_assemble {run : Run} {node : Node} (h : assemble run = .ok node) :
    ∃ ended, follow false run = some ended := by
  refine assemble_ok_induction (motive := fun run _ => ∃ ended, follow false run = some ended)
    (fun node => ⟨true, rfl⟩) ?_ h
  intro run p after node hreduce ih
  obtain ⟨i, out, rest, hhead, hout, -⟩ := reduce_eq_some hreduce
  cases out with
  | error e => cases hout
  | ok x =>
    obtain rfl : after = run.take i ++ .operand x :: rest := by simpa [Except.map] using hout
    rw [← List.take_append_drop i run, follow_append]
    rw [follow_append] at ih
    obtain ⟨ended, ih⟩ := ih
    obtain ⟨state, hstate, hrest⟩ := Option.bind_eq_some_iff.mp ih
    cases state with
    | true => cases hrest
    | false =>
      rw [hstate, Option.bind_some]
      rcases (follow_headRedex hhead).2 with hread | ⟨-, hread⟩
      · exact ⟨ended, hread.trans hrest⟩
      · exact ⟨false, hread⟩

variable {left middle right : Run}

/-- An expression can only start where no operand has ended. -/
theorem follow_true_eq_none (h : follow false middle = some true) : follow true middle = none := by
  rcases middle with _ | ⟨_ | ⟨op, p, span⟩, rest⟩
  · cases h
  · rfl
  · cases hop : op.isInfix <;> simp_all [follow]

/-- Around an expression, what comes before waits for an operand, and what comes behind goes on
where an operand has ended. -/
theorem follow_around {ended : Bool} (h : follow false (left ++ middle ++ right) = some ended)
    (hmiddle : follow false middle = some true) :
    follow false left = some false ∧ follow true right = some ended := by
  rw [follow_append, follow_append, Option.bind_assoc, Option.bind_eq_some_iff] at h
  obtain ⟨state, hleft, h⟩ := h
  cases state with
  | true => simp [follow_true_eq_none hmiddle] at h
  | false => exact ⟨hleft, by simpa [hmiddle] using h⟩

/-- Where an operand is waited for, nothing or an operator comes before. -/
theorem getLast?_of_follow (h : follow false left = some false) :
    left = [] ∨ ∃ op p span, left.getLast? = some (.operator op p span) := by
  rcases List.eq_nil_or_concat left with rfl | ⟨init, item, rfl⟩
  · exact Or.inl rfl
  · refine Or.inr ?_
    rw [List.concat_eq_append] at h ⊢
    cases item with
    | operator op p span => exact ⟨op, p, span, by simp⟩
    | operand node =>
      rw [follow_append, Option.bind_eq_some_iff] at h
      obtain ⟨state, -, hstate⟩ := h
      cases state <;> simp [follow] at hstate

/-- Where an operand has ended, nothing or an operator between operands comes behind. -/
theorem head?_of_follow {ended : Bool} (h : follow true right = some ended) :
    right = [] ∨ ∃ op p span rest, right = .operator op p span :: rest ∧ op.isInfix = true := by
  rcases right with _ | ⟨_ | ⟨op, p, span⟩, rest⟩
  · exact Or.inl rfl
  · cases h
  · exact Or.inr ⟨op, p, span, rest, rfl, (follow_operator.mp h).1⟩

theorem getLast?_of_follow_true (h : follow false middle = some true) :
    ∃ node, middle.getLast? = some (.operand node) := by
  rcases List.eq_nil_or_concat middle with rfl | ⟨init, item, rfl⟩
  · cases h
  · rw [List.concat_eq_append] at h ⊢
    rw [follow_append, Option.bind_eq_some_iff] at h
    obtain ⟨state, -, hstate⟩ := h
    cases item with
    | operand node => exact ⟨node, by simp⟩
    | operator op p span => simp [follow] at hstate

/-- A stretch of a run that can be read is an expression if no operator at its start wants a left
operand and it ends in one. -/
theorem follow_stretch {ended : Bool} {node : Node}
    (h : follow false (left ++ middle ++ right) = some ended)
    (hfirst : ∀ op p span, middle.head? = some (.operator op p span) → op.isInfix = false)
    (hlast : middle.getLast? = some (.operand node)) : follow false middle = some true := by
  rw [follow_append, follow_append, Option.bind_assoc, Option.bind_eq_some_iff] at h
  obtain ⟨state, -, h⟩ := h
  obtain ⟨state', hmiddle, -⟩ := Option.bind_eq_some_iff.mp h
  have hstate : state = false := by
    cases state with
    | false => rfl
    | true =>
      rcases middle with _ | ⟨_ | ⟨op, p, span⟩, rest⟩
      · cases hlast
      · cases hmiddle
      · simp [(follow_operator.mp hmiddle).1] at hfirst
  obtain ⟨init, rfl⟩ := List.getLast?_eq_some_iff.mp hlast
  subst hstate
  rw [hmiddle]
  rw [follow_append, Option.bind_eq_some_iff] at hmiddle
  obtain ⟨before, -, hnode⟩ := hmiddle
  cases before with
  | false => exact hnode.symm
  | true => cases hnode

/-- An expression is one operand, or some operator in it is ready. -/
theorem exists_ready (h : follow false middle = some true) :
    (∃ node, middle = [.operand node]) ∨ ∃ i p, Ready middle i p := by
  induction hn : middle.length using Nat.strongRecOn generalizing middle with
  | _ n ih =>
    rcases middle with _ | ⟨a | ⟨op, p, span⟩, rest⟩
    · cases h
    · rcases rest with _ | ⟨_ | ⟨op, p, span⟩, rest⟩
      · exact Or.inl ⟨a, rfl⟩
      · cases h
      · refine Or.inr ?_
        have h : follow true (.operator op p span :: rest) = some true := h
        obtain ⟨hop, hrest⟩ := follow_operator.mp h
        rcases ih rest.length (by simp only [List.length_cons] at hn; omega) hrest rfl with
          ⟨b, rfl⟩ | ⟨i, q, hready⟩
        · cases op with
          | binary op => exact ⟨0, p, ready_zero rfl⟩
          | compound op => exact ⟨0, p, ready_zero rfl⟩
          | _ => cases hop
        · exact ⟨i + 1 + 1, q, ready_succ.mpr (ready_succ.mpr hready)⟩
    · refine Or.inr ?_
      obtain ⟨hop, hrest⟩ := follow_operator.mp h
      rcases ih rest.length (by simp only [List.length_cons] at hn; omega) hrest rfl with
        ⟨b, rfl⟩ | ⟨i, q, hready⟩
      · cases op with
        | unary op => exact ⟨0, p, ready_zero rfl⟩
        | ret => exact ⟨0, p, ready_zero rfl⟩
        | _ => cases hop
      · exact ⟨i + 1, q, ready_succ.mpr hready⟩

/-! ## Where a ready operator stands -/

theorem headRedex_mem {run rest : Run} {p : Nat} {node : Except BuildError Node}
    (h : headRedex run = some (p, node, rest)) :
    (∃ op span, .operator op p span ∈ run) ∧ rest ⊆ run := by
  unfold headRedex at h
  split at h <;> simp_all <;> grind

/-- If something is left behind a ready operator, it stays ready whatever follows. -/
theorem headRedex_append_of_ne_nil {run rest : Run} {p : Nat} {node : Except BuildError Node}
    (h : headRedex run = some (p, node, rest)) (hrest : rest ≠ []) (post : Run) :
    headRedex (run ++ post) = some (p, node, rest ++ post) := by
  unfold headRedex at h
  split at h <;> simp_all [headRedex]

/-- If a run ends in an operator and goes on behind it, then its first operator is that one, or it
is ready in the run alone and leaves the end as it is. -/
theorem headRedex_left {run post rest : Run} {op : Operator} {p q : Nat} {span : Span}
    {node : Except BuildError Node} (hlast : run.getLast? = some (.operator op q span))
    (hpost : post ≠ []) (h : headRedex (run ++ post) = some (p, node, rest)) :
    p = q ∨ ∃ rest', headRedex run = some (p, node, rest') ∧ rest = rest' ++ post ∧
      rest'.getLast? = some (.operator op q span) := by
  rcases run with _ | ⟨first, _ | ⟨second, _ | ⟨third, run⟩⟩⟩
  · cases hlast
  · obtain rfl : first = .operator op q span := by simpa using hlast
    rcases post with _ | ⟨_ | _, post⟩
    · exact absurd rfl hpost
    · cases op <;> simp_all [headRedex]
    · cases op <;> simp [headRedex] at h
  · obtain rfl : second = .operator op q span := by simpa using hlast
    rcases first with a | ⟨op', p', span'⟩
    · rcases post with _ | ⟨_ | _, post⟩
      · exact absurd rfl hpost
      · cases op <;> simp_all [headRedex]
      · cases op <;> simp [headRedex] at h
    · cases op' <;> simp [headRedex] at h
  · right
    rcases first with a | ⟨op', p', span'⟩
    · rcases second with b | ⟨op', p', span'⟩
      · simp [headRedex] at h
      · rcases third with c | _
        · rcases run with _ | ⟨fourth, run⟩
          · simp at hlast
          · cases op' <;> simp_all [headRedex]
        · cases op' <;> simp [headRedex] at h
    · rcases second with b | _
      · cases op' <;> simp_all [headRedex]
      · cases op' <;> simp [headRedex] at h

/-- The ready operator that no other ready one comes before is the one that is folded. -/
theorem reduce_of_best {run rest : Run} {i p : Nat} {node : Except BuildError Node}
    (h : headRedex (run.drop i) = some (p, node, rest))
    (hbest : ∀ j q, Ready run j q → q < p ∨ q = p ∧ i ≤ j) :
    reduce run = some (p, node.map fun n => run.take i ++ .operand n :: rest) := by
  rcases hreduce : reduce run with _ | ⟨q, out⟩
  · exact absurd ⟨node, rest, h⟩ (reduce_eq_none hreduce)
  · obtain ⟨j, node', rest', hhead, rfl, hbest'⟩ := reduce_eq_some hreduce
    have h₁ := hbest j q ⟨node', rest', hhead⟩
    have h₂ := hbest' i p ⟨node, rest, h⟩
    obtain rfl : i = j := by omega
    obtain ⟨rfl, rfl, rfl⟩ : p = q ∧ node = node' ∧ rest = rest' := by
      simpa using h.symm.trans hhead
    rfl

/-- The operators at the two ends of a stretch have precedences below a bound. -/
structure Edges (bound : Nat) (left right : Run) : Prop where
  left : ∀ op p span, left.getLast? = some (.operator op p span) → p < bound
  right : ∀ op p span, right.head? = some (.operator op p span) → op.isInfix = true → p < bound

variable {bound : Nat}

/-- A ready operator with a precedence that reaches the bound stands before the stretch, in it, or
behind it, and is ready there alone. -/
theorem locate {ended : Bool} {i p : Nat} {node : Except BuildError Node} {rest : Run}
    (hmiddle : follow false middle = some true)
    (hread : follow false (left ++ middle ++ right) = some ended)
    (hedges : Edges bound left right) (hp : bound ≤ p)
    (h : headRedex ((left ++ middle ++ right).drop i) = some (p, node, rest)) :
    (i < left.length ∧ ∃ rest', headRedex (left.drop i) = some (p, node, rest') ∧ rest' ≠ [] ∧
        rest = rest' ++ (middle ++ right) ∧ rest'.getLast? = left.getLast?) ∨
      (∃ k rest', i = left.length + k ∧ headRedex (middle.drop k) = some (p, node, rest') ∧
        k < middle.length ∧ rest = rest' ++ right) ∨
      ∃ k, i = left.length + middle.length + (k + 1) ∧
        headRedex (right.drop (k + 1)) = some (p, node, rest) ∧ right ≠ [] := by
  obtain ⟨hleft, hright⟩ := follow_around hread hmiddle
  obtain ⟨last, hlast⟩ := getLast?_of_follow_true hmiddle
  have hne : middle ≠ [] := by
    rintro rfl
    cases hmiddle
  rcases Nat.lt_or_ge i left.length with hi | hi
  · -- Before the stretch: only the operator at its end could reach over.
    refine Or.inl ⟨hi, ?_⟩
    rcases getLast?_of_follow hleft with rfl | ⟨op, q, span, hop⟩
    · simp at hi
    · have hdrop : (left.drop i).getLast? = some (.operator op q span) := by
        rw [List.getLast?_drop, if_neg (by omega), hop]
      rw [List.append_assoc, List.drop_append_of_le_length (by omega)] at h
      rcases headRedex_left hdrop (by simp [hne]) h with rfl | ⟨rest', hhead, rfl, hrest⟩
      · exact absurd (hedges.left op p span hop) (by omega)
      · refine ⟨rest', hhead, ?_, rfl, hrest.trans hop.symm⟩
        rintro rfl
        cases hrest
  · refine Or.inr ?_
    obtain ⟨k, rfl⟩ : ∃ k, i = left.length + k := ⟨i - left.length, by omega⟩
    rw [List.append_assoc, List.drop_length_add_append] at h
    rcases Nat.lt_trichotomy (k + 1) middle.length with hk | hk | hk
    · -- In the stretch, which ends in an operand.
      rw [headRedex_drop_append hlast hk, Option.map_eq_some_iff] at h
      obtain ⟨⟨q, node', rest'⟩, hhead, heq⟩ := h
      obtain ⟨rfl, rfl, rfl⟩ : q = p ∧ node' = node ∧ rest' ++ right = rest := by simpa using heq
      exact Or.inl ⟨k, rest', rfl, hhead, by omega, rfl⟩
    · -- The operator behind the stretch, with the last operand of the stretch on its left.
      have hdrop : middle.drop k = [.operand last] := by
        obtain ⟨init, hinit⟩ := List.getLast?_eq_some_iff.mp hlast
        rw [hinit] at hk ⊢
        simp only [List.length_append, List.length_singleton, Nat.add_right_cancel_iff] at hk
        simp [hk]
      rw [List.drop_append_of_le_length (by omega), hdrop] at h
      rcases head?_of_follow hright with rfl | ⟨op, q, span, tail, rfl, hop⟩
      · cases h
      · have hq := hedges.right op q span rfl hop
        obtain rfl : q = p := by
          rcases tail with _ | ⟨_ | _, tail⟩ <;> cases op <;> simp_all [headRedex]
        omega
    · obtain ⟨k, rfl⟩ : ∃ j, k = middle.length + j := ⟨k - middle.length, by omega⟩
      rw [List.drop_length_add_append] at h
      rcases head?_of_follow hright with rfl | ⟨op, q, span, tail, rfl, hop⟩
      · rw [List.drop_nil] at h
        cases h
      · rcases k with _ | k
        · cases op <;> simp_all [headRedex, Operator.isInfix]
        · exact Or.inr ⟨k, by omega, h, by simp⟩

/-- A ready operator that is ready around an operand is ready around an expression too, at the same
place before it or as far behind it, unless it binds loosely. -/
theorem ready_around {ended : Bool} {node : Node} {j q : Nat}
    (hmiddle : follow false middle = some true)
    (hread : follow false (left ++ middle ++ right) = some ended)
    (hedges : Edges bound left right) (h : Ready (left ++ [.operand node] ++ right) j q) :
    q < bound ∨ j < left.length ∧ Ready (left ++ middle ++ right) j q ∨
      ∃ k, j = left.length + 1 + k ∧
        Ready (left ++ middle ++ right) (left.length + middle.length + k) q := by
  obtain ⟨hleft, hright⟩ := follow_around hread hmiddle
  have hread' : follow false (left ++ [.operand node] ++ right) = some ended := by
    rw [follow_append, follow_append, hleft]
    exact hright
  rcases Nat.lt_or_ge q bound with hq | hq
  · exact Or.inl hq
  · refine Or.inr ?_
    obtain ⟨out, rest, h⟩ := h
    rcases locate rfl hread' hedges hq h with
      ⟨hj, rest', hhead, hne, -, -⟩ | ⟨k, rest', -, hhead, -, -⟩ | ⟨k, rfl, hhead, -⟩
    · refine Or.inl ⟨hj, out, rest' ++ (middle ++ right), ?_⟩
      rw [List.append_assoc, List.drop_append_of_le_length (by omega),
        headRedex_append_of_ne_nil hhead hne]
    · rcases k with _ | k <;> simp [headRedex] at hhead
    · refine Or.inr ⟨k + 1, by simp, out, rest, ?_⟩
      rw [List.append_assoc, Nat.add_assoc, List.drop_length_add_append,
        List.drop_length_add_append, hhead]

/-- Folding an operator before or behind the stretch is the same fold with one operand in its
place. -/
theorem reduce_around {ended : Bool} {node : Node} {i i' p : Nat} {out : Except BuildError Node}
    {rest : Run} (hmiddle : follow false middle = some true)
    (hread : follow false (left ++ middle ++ right) = some ended)
    (hedges : Edges bound left right) (hp : bound ≤ p)
    (hbest : ∀ j q, Ready (left ++ middle ++ right) j q → q < p ∨ q = p ∧ i ≤ j)
    (hi : i = i' ∧ i < left.length ∨
      ∃ k, i = left.length + middle.length + k ∧ i' = left.length + 1 + k)
    (h : headRedex ((left ++ [RunItem.operand node] ++ right).drop i') = some (p, out, rest)) :
    reduce (left ++ [.operand node] ++ right) = some (p, out.map fun n =>
      (left ++ [RunItem.operand node] ++ right).take i' ++ .operand n :: rest) := by
  refine reduce_of_best h fun j q hready => ?_
  rcases ready_around hmiddle hread hedges hready with hq | ⟨hj, hready'⟩ | ⟨k, rfl, hready'⟩
  · exact Or.inl (by omega)
  · have := hbest _ _ hready'
    omega
  · have := hbest _ _ hready'
    omega

theorem follow_fold {p i : Nat} {node : Except BuildError Node} {x : Node} {rest : Run}
    (h : follow false middle = some true)
    (hhead : headRedex (middle.drop i) = some (p, node, rest)) :
    follow false (middle.take i ++ .operand x :: rest) = some true := by
  rw [← List.take_append_drop i middle, follow_append, Option.bind_eq_some_iff] at h
  obtain ⟨state, hstate, hdrop⟩ := h
  obtain ⟨hnone, hread⟩ := follow_headRedex hhead
  cases state with
  | true => simp [hnone] at hdrop
  | false =>
    rw [follow_append, hstate]
    rcases hread with hread | ⟨-, hread⟩
    · exact hread.symm.trans hdrop
    · simp [hread] at hdrop

/-- A fold before the stretch leaves the operator at its left end. -/
theorem Edges.fold_left (hedges : Edges bound left right) {i : Nat} {x : Node} {rest : Run}
    (hi : i < left.length) (hrest : rest ≠ []) (hlast : rest.getLast? = left.getLast?) :
    Edges bound (left.take i ++ .operand x :: rest) right := by
  obtain ⟨item, tail, rfl⟩ := List.exists_cons_of_ne_nil hrest
  have hleft : left ≠ [] := List.ne_nil_of_length_pos (by omega)
  refine ⟨?_, hedges.right⟩
  rw [List.getLast?_append, List.getLast?_cons_cons, hlast]
  simpa [hleft] using hedges.left

/-- A fold behind the stretch leaves the operator at its right end. -/
theorem Edges.fold_right (hedges : Edges bound left right) (hright : right ≠ []) (k : Nat) (x : Node)
    (rest : Run) : Edges bound left (right.take (k + 1) ++ .operand x :: rest) := by
  obtain ⟨item, tail, rfl⟩ := List.exists_cons_of_ne_nil hright
  exact ⟨hedges.left, hedges.right⟩

section Fold

variable {ended : Bool} {x g : Node} {p k : Nat} {rest : Run}
  (hmiddle : follow false middle = some true)

include hmiddle

/-- While the stretch holds an operator, no operator is folded that binds loosely. -/
theorem bound_le_of_best (hbound : ∀ op p span, .operator op p span ∈ middle → bound ≤ p)
    {i j q : Nat} (hready : Ready middle j q)
    (hbest : ∀ j q, Ready (left ++ middle ++ right) j q → q < p ∨ q = p ∧ i ≤ j) : bound ≤ p := by
  obtain ⟨last, hlast⟩ := getLast?_of_follow_true hmiddle
  have hq : bound ≤ q := by
    obtain ⟨node, rest, hnode⟩ := hready
    obtain ⟨⟨op, span, hmem⟩, -⟩ := headRedex_mem hnode
    exact hbound op q span (List.mem_of_mem_drop hmem)
  have := hbest _ _ ((hready.append_right hlast right).append_left left |>
    (List.append_assoc left middle right ▸ ·))
  omega

/-- A fold in the stretch is the fold of the stretch alone. -/
theorem reduce_within (hhead : headRedex (middle.drop k) = some (p, .ok x, rest))
    (hbest : ∀ j q, Ready (left ++ middle ++ right) j q → q < p ∨ q = p ∧ left.length + k ≤ j) :
    reduce middle = some (p, .ok (middle.take k ++ .operand x :: rest)) := by
  obtain ⟨last, hlast⟩ := getLast?_of_follow_true hmiddle
  refine reduce_of_best hhead fun j q hready => ?_
  have := hbest _ _ ((hready.append_right hlast right).append_left left |>
    (List.append_assoc left middle right ▸ ·))
  omega

variable (hread : follow false (left ++ middle ++ right) = some ended)
  (hedges : Edges bound left right) (hp : bound ≤ p)

include hread hedges hp

/-- A fold before the stretch is the same with one operand in its place. -/
theorem reduce_before {i : Nat} (hi : i < left.length)
    (hhead : headRedex (left.drop i) = some (p, .ok x, rest)) (hrest : rest ≠ [])
    (hbest : ∀ j q, Ready (left ++ middle ++ right) j q → q < p ∨ q = p ∧ i ≤ j) :
    reduce (left ++ [.operand g] ++ right) =
      some (p, .ok (left.take i ++ .operand x :: rest ++ [.operand g] ++ right)) := by
  have hhead' : headRedex ((left ++ [RunItem.operand g] ++ right).drop i) =
      some (p, .ok x, rest ++ ([.operand g] ++ right)) := by
    rw [List.append_assoc left, List.drop_append_of_le_length (by omega),
      headRedex_append_of_ne_nil hhead hrest]
  rw [reduce_around hmiddle hread hedges hp hbest (Or.inl ⟨rfl, hi⟩) hhead', List.append_assoc left,
    List.take_append_of_le_length (by omega)]
  simp [Except.map]

/-- A fold behind the stretch is the same with one operand in its place. -/
theorem reduce_behind (hhead : headRedex (right.drop (k + 1)) = some (p, .ok x, rest))
    (hbest : ∀ j q, Ready (left ++ middle ++ right) j q →
      q < p ∨ q = p ∧ left.length + middle.length + (k + 1) ≤ j) :
    reduce (left ++ [.operand g] ++ right) =
      some (p, .ok (left ++ [.operand g] ++ (right.take (k + 1) ++ .operand x :: rest))) := by
  have hhead' : headRedex ((left ++ [RunItem.operand g] ++ right).drop
      (left.length + 1 + (k + 1))) = some (p, .ok x, rest) := by
    rw [List.append_assoc left, Nat.add_assoc, List.drop_length_add_append]
    simpa [Nat.add_comm 1] using hhead
  rw [reduce_around hmiddle hread hedges hp hbest (Or.inr ⟨k + 1, rfl, rfl⟩) hhead',
    List.append_assoc left, Nat.add_assoc, List.take_length_add_append]
  simp [Except.map, Nat.add_comm 1]

end Fold

/-- The operators that a fold in the stretch leaves were in the stretch before. -/
theorem bound_le_of_fold {p k : Nat} {x : Node} {out : Except BuildError Node} {rest : Run}
    (hbound : ∀ op p span, .operator op p span ∈ middle → bound ≤ p)
    (hhead : headRedex (middle.drop k) = some (p, out, rest)) :
    ∀ op q span, .operator op q span ∈ middle.take k ++ .operand x :: rest → bound ≤ q := by
  intro op q span hmem
  rcases List.mem_append.mp hmem with hmem | hmem
  · exact hbound op q span (List.mem_of_mem_take hmem)
  · have hmem : .operator op q span ∈ rest := by simpa using hmem
    exact hbound op q span (List.mem_of_mem_drop ((headRedex_mem hhead).2 hmem))

/-- A run of one operand is the stretch itself, with nothing around it. -/
theorem middle_of_single {leaf : Node} (hrun : [.operand leaf] = left ++ middle ++ right)
    (hmiddle : follow false middle = some true) :
    left = [] ∧ middle = [.operand leaf] ∧ right = [] := by
  rcases left with _ | ⟨item, left⟩
  · rcases middle with _ | ⟨item, middle⟩
    · cases hmiddle
    · obtain ⟨rfl, rfl, rfl⟩ : RunItem.operand leaf = item ∧ middle = [] ∧ right = [] := by
        simpa using hrun
      exact ⟨rfl, rfl, rfl⟩
  · obtain ⟨-, -, rfl, -⟩ : _ ∧ left = [] ∧ middle = [] ∧ _ := by simpa using hrun
    cases hmiddle

/-- **A stretch whose operators bind tighter than those at its ends folds to one operand.** -/
theorem assemble_middle {node : Node} (h : assemble (left ++ middle ++ right) = .ok node)
    (hmiddle : follow false middle = some true)
    (hbound : ∀ op p span, .operator op p span ∈ middle → bound ≤ p)
    (hedges : Edges bound left right) :
    ∃ g, assemble middle = .ok g ∧ assemble (left ++ [.operand g] ++ right) = .ok node := by
  -- The induction is on the folds of the whole run, which take turns outside and in the stretch.
  have key := assemble_ok_induction (motive := fun run node => assemble run = .ok node ∧
    ∀ left middle right, run = left ++ middle ++ right → follow false middle = some true →
      (∀ op p span, .operator op p span ∈ middle → bound ≤ p) → Edges bound left right →
      ∃ g, assemble middle = .ok g ∧ assemble (left ++ [.operand g] ++ right) = .ok node)
    ?_ ?_ h
  · exact key.2 left middle right rfl hmiddle hbound hedges
  · intro leaf
    have hleaf : assemble [.operand leaf] = .ok leaf := by rw [assemble]
    refine ⟨hleaf, fun left middle right hrun hmiddle _ _ => ?_⟩
    obtain ⟨rfl, rfl, rfl⟩ := middle_of_single hrun hmiddle
    exact ⟨leaf, hleaf, hleaf⟩
  · intro run p after node hreduce ih
    obtain ⟨hafter, ih⟩ := ih
    have hrun : assemble run = .ok node := (assemble_of_reduce hreduce).trans hafter
    refine ⟨hrun, fun left middle right hsplit hmiddle hbound hedges => ?_⟩
    subst hsplit
    rcases exists_ready hmiddle with ⟨g, rfl⟩ | ⟨j, q, hready⟩
    · exact ⟨g, by rw [assemble], hrun⟩
    · obtain ⟨ended, hread⟩ := follow_of_assemble hrun
      obtain ⟨i, out, rest, hhead, hout, hbest⟩ := reduce_eq_some hreduce
      have hp : bound ≤ p := bound_le_of_best hmiddle hbound hready hbest
      cases out with
      | error e => cases hout
      | ok x =>
        obtain rfl : after = (left ++ middle ++ right).take i ++ .operand x :: rest := by
          simpa [Except.map] using hout
        rcases locate hmiddle hread hedges hp hhead with
          ⟨hi, rest', hhead', hne, rfl, hlast⟩ | ⟨k, rest', rfl, hhead', hk, rfl⟩ |
          ⟨k, rfl, hhead', hne⟩
        · obtain ⟨g, hg, hwhole⟩ := ih (left.take i ++ .operand x :: rest') middle right
            (by rw [List.append_assoc left, List.take_append_of_le_length (by omega)]; simp)
            hmiddle hbound (hedges.fold_left hi hne hlast)
          have hfold := reduce_before (g := g) hmiddle hread hedges hp hi hhead' hne hbest
          exact ⟨g, hg, (assemble_of_reduce hfold).trans hwhole⟩
        · obtain ⟨g, hg, hwhole⟩ := ih left (middle.take k ++ .operand x :: rest') right
            (by rw [List.append_assoc left, List.take_length_add_append,
                  List.take_append_of_le_length (by omega)]; simp)
            (follow_fold hmiddle hhead') (bound_le_of_fold hbound hhead') hedges
          have hfold := reduce_within hmiddle hhead' hbest
          exact ⟨g, (assemble_of_reduce hfold).trans hg, hwhole⟩
        · obtain ⟨g, hg, hwhole⟩ := ih left middle (right.take (k + 1) ++ .operand x :: rest)
            (by rw [List.append_assoc left, Nat.add_assoc, List.take_length_add_append,
                  List.take_length_add_append]; simp)
            hmiddle hbound (hedges.fold_right hne k x rest)
          have hfold := reduce_behind (g := g) hmiddle hread hedges hp hhead' hbest
          exact ⟨g, hg, (assemble_of_reduce hfold).trans hwhole⟩

end Run

end SlotScript
