import SlotScript.Proofs.Tree.Fold

/-!
# Precedences determine the tree of a chain

A chain is a run of operands with binary operators between them. The operators carry any precedences,
those of the table or not. A fold is *ordered* if, at each of its operators, none on the left binds
looser and all on the right bind tighter.

**Theorem (`Run.assemble_chain`).** Every chain is the reading of exactly one ordered fold, and folding
the chain gives its tree. Folding any run ends after at most as many folds as it has operators.

That there is an ordered fold is shown by putting the operators of the chain into it one after the
other: a new operator goes down the right side as far as the operators there bind looser, and takes what
it finds as its left operand (`Fold.extend`). That there is only one is shown at the root. In an ordered
fold the root is the last of the loosest operators, so two ordered folds of one chain have the same root,
and the chains on both sides of it are the same.
-/

namespace SlotScript

/-- A binary operator and the operand behind it. -/
structure Link where
  /-- The operator. -/
  op : BinaryOp
  /-- How tightly it binds. -/
  precedence : Nat
  /-- Where it stands. -/
  span : Span
  /-- The operand. -/
  operand : Node

/-- The operator and the operand as items of a run. -/
def Link.items (link : Link) : Run :=
  [.operator (.binary link.op) link.precedence link.span, .operand link.operand]

/-- Operands with binary operators between them. -/
def Run.chain (first : Node) (links : List Link) : Run :=
  .operand first :: links.flatMap Link.items

namespace Fold

/-- Only binary operators, none of which has a looser one on its left, or one that does not bind
tighter on its right. -/
def Ordered : Fold → Prop
  | leaf _ => True
  | between _ p _ left right =>
    left.Ordered ∧ right.Ordered ∧ (∀ q ∈ left.precedences, p ≤ q) ∧ ∀ q ∈ right.precedences, p < q
  | front _ _ _ _ => False

variable {t t' : Fold}

theorem Ordered.canonical (h : t.Ordered) : t.Canonical := by
  induction t with
  | leaf node => trivial
  | between op p span left right ihleft ihright =>
    obtain ⟨hleft, hright, hle, hlt⟩ := h
    exact ⟨ihleft hleft, ihright hright, hle, Or.inr hlt⟩
  | front op p span operand _ => exact h.elim

/-- No operator of an ordered fold binds looser than its root. -/
theorem Ordered.le_of_mem {op : BinaryOp} {p q : Nat} {span : Span} {left right : Fold}
    (h : (between op p span left right).Ordered)
    (hq : q ∈ (between op p span left right).precedences) : p ≤ q := by
  obtain ⟨-, -, hle, hlt⟩ := h
  rcases List.mem_append.mp hq with hq | hq
  · exact hle q hq
  · rcases List.mem_cons.mp hq with rfl | hq
    · exact Nat.le_refl q
    · exact Nat.le_of_lt (hlt q hq)

/-! ## There is an ordered fold -/

/-- The fold with a further operator and operand behind it. -/
def extend (link : Link) : Fold → Fold
  | between op p span left right =>
    if p < link.precedence then between op p span left (right.extend link)
    else
      between link.op link.precedence link.span (between op p span left right) (leaf link.operand)
  | t => between link.op link.precedence link.span t (leaf link.operand)

theorem items_extend (link : Link) (t : Fold) : (t.extend link).items = t.items ++ link.items := by
  induction t with
  | leaf node => rfl
  | between op p span left right _ ih =>
    rw [extend]
    by_cases hp : p < link.precedence
    · rw [if_pos hp, items, ih, items, List.append_assoc, List.cons_append]
    · rw [if_neg hp]
      rfl
  | front op p span operand _ => rfl

theorem precedences_extend (link : Link) (t : Fold) :
    (t.extend link).precedences = t.precedences ++ [link.precedence] := by
  induction t with
  | leaf node => rfl
  | between op p span left right _ ih =>
    rw [extend]
    by_cases hp : p < link.precedence
    · rw [if_pos hp, precedences, ih, precedences, List.append_assoc, List.cons_append]
    · rw [if_neg hp]
      rfl
  | front op p span operand _ => rfl

theorem Ordered.extend (h : t.Ordered) (link : Link) : (t.extend link).Ordered := by
  induction t with
  | leaf node => exact ⟨trivial, trivial, by simp [precedences], by simp [precedences]⟩
  | between op p span left right _ ih =>
    obtain ⟨hleft, hright, hle, hlt⟩ := h
    rw [Fold.extend]
    by_cases hp : p < link.precedence
    · rw [if_pos hp]
      refine ⟨hleft, ih hright, hle, ?_⟩
      rw [precedences_extend]
      intro q hq
      rcases List.mem_append.mp hq with hq | hq
      · exact hlt q hq
      · rwa [List.mem_singleton.mp hq]
    · rw [if_neg hp]
      refine ⟨⟨hleft, hright, hle, hlt⟩, trivial, ?_, by simp [precedences]⟩
      intro q hq
      have hroot : p ≤ q := Ordered.le_of_mem ⟨hleft, hright, hle, hlt⟩ hq
      omega
  | front op p span operand _ => exact h.elim

theorem exists_ordered (first : Node) (links : List Link) :
    ∃ t : Fold, t.items = Run.chain first links ∧ t.Ordered := by
  -- the operators of the chain are put behind a fold one after the other
  suffices h : ∀ t : Fold, t.Ordered → ∃ t' : Fold,
      t'.items = t.items ++ links.flatMap Link.items ∧ t'.Ordered from h (leaf first) trivial
  induction links with
  | nil => exact fun t ht => ⟨t, by simp, ht⟩
  | cons link links ih =>
    intro t ht
    obtain ⟨t', hitems, ht'⟩ := ih (t.extend link) (ht.extend link)
    refine ⟨t', ?_, ht'⟩
    rw [hitems, items_extend, List.append_assoc, List.flatMap_cons]

/-! ## There is only one -/

theorem mem_precedences {op : Operator} {q : Nat} {span : Span} (h : .operator op q span ∈ t.items) :
    q ∈ t.precedences := by
  induction t with
  | leaf node => simp [items] at h
  | between op' p span' left right ihleft ihright =>
    rw [precedences]
    rcases List.mem_append.mp h with h | h
    · exact List.mem_append_left _ (ihleft h)
    · rcases List.mem_cons.mp h with h | h
      · cases h
        simp
      · exact List.mem_append_right _ (List.mem_cons_of_mem _ (ihright h))
  | front op' p span' operand ih =>
    rw [precedences]
    rcases List.mem_append.mp h with h | h
    · have hq : q = p := by
        cases op' <;> simp [Front.items] at h <;> exact h.2.1
      rw [hq]
      exact List.mem_cons_self
    · exact List.mem_cons_of_mem _ (ih h)

theorem between_items_ne_leaf {op : BinaryOp} {p : Nat} {span : Span} {left right : Fold} {node : Node} :
    (between op p span left right).items ≠ (leaf node).items := by
  intro h
  have hlength := congrArg List.length h
  have hleft := left.items_length_pos
  simp only [items, List.length_append, List.length_cons, List.length_nil] at hlength
  omega

/-- The root of one ordered fold does not stand to the left of the root of another one with the same
reading: it would have to bind as tightly as that one, and looser. -/
theorem Ordered.root_not_left {op op' : BinaryOp} {p p' : Nat} {span span' : Span}
    {left right left' right' : Fold} {mid : Run} (h : (between op p span left right).Ordered)
    (h' : (between op' p' span' left' right').Ordered)
    (hleft : left'.items = left.items ++ .operator (.binary op) p span :: mid)
    (hright : right.items = mid ++ .operator (.binary op') p' span' :: right'.items) : False := by
  have hmem : RunItem.operator (.binary op) p span ∈ left'.items := by simp [hleft]
  have hmem' : RunItem.operator (.binary op') p' span' ∈ right.items := by simp [hright]
  have hle : p' ≤ p := h'.2.2.1 p (mem_precedences hmem)
  have hlt : p < p' := h.2.2.2 p' (mem_precedences hmem')
  omega

/-- Ordered folds with the same reading are the same. -/
theorem Ordered.eq_of_items (h : t.Ordered) (h' : t'.Ordered) (hitems : t.items = t'.items) : t = t' := by
  induction t generalizing t' with
  | front op p span operand _ => exact h.elim
  | leaf node =>
    cases t' with
    | leaf node' => simpa [items] using hitems
    | between => exact absurd hitems.symm between_items_ne_leaf
    | front => exact h'.elim
  | between op p span left right ihleft ihright =>
    cases t' with
    | leaf node' => exact absurd hitems between_items_ne_leaf
    | front => exact h'.elim
    | between op' p' span' left' right' =>
      -- where the two roots stand in the run
      rcases List.append_eq_append_iff.mp hitems with ⟨mid, hleft, hright⟩ | ⟨mid, hleft, hright⟩
      · rcases mid with _ | ⟨item, mid⟩
        · obtain ⟨hroot, htail⟩ := List.cons.inj hright
          cases hroot
          rw [List.append_nil] at hleft
          rw [ihleft h.1 h'.1 hleft.symm, ihright h.2.1 h'.2.1 htail]
        · obtain ⟨rfl, htail⟩ := List.cons.inj hright
          exact (h.root_not_left h' hleft htail).elim
      · rcases mid with _ | ⟨item, mid⟩
        · obtain ⟨hroot, htail⟩ := List.cons.inj hright
          cases hroot
          rw [List.append_nil] at hleft
          rw [ihleft h.1 h'.1 hleft, ihright h.2.1 h'.2.1 htail.symm]
        · obtain ⟨rfl, htail⟩ := List.cons.inj hright
          exact (h'.root_not_left h hleft htail).elim

end Fold

/-! ## Folding ends -/

namespace Run

/-- The one run comes of the other by so many folds. -/
inductive Folds : Nat → Run → Run → Prop
  | none {run : Run} : Folds 0 run run
  | fold {n p : Nat} {run after last : Run} :
    reduce run = some (p, .ok after) → Folds n after last → Folds (n + 1) run last

/-- Why a run that is no single operand cannot be folded any further. -/
def fault? (run : Run) : Option BuildError :=
  match reduce run with
  | none => some (stuck run)
  | some (_, .error e) => some e
  | some (_, .ok _) => none

/-- What a run comes to that is not folded any further. -/
def result? : Run → Option (Except BuildError Node)
  | [.operand node] => some (.ok node)
  | run => run.fault?.map .error

theorem result?_of_fault? {run : Run} {e : BuildError} (hrun : ∀ node, run ≠ [.operand node])
    (h : run.fault? = some e) : run.result? = some (.error e) := by
  unfold result?
  split
  · rename_i node
    exact absurd rfl (hrun node)
  · rw [h]
    rfl

/-- Every run is folded at most as often as it has operators, and comes to a tree or to an error. -/
theorem assemble_folds (run : Run) : ∃ n last, n ≤ operatorCount run ∧ Folds n run last ∧
    last.result? = some (assemble run) := by
  fun_induction assemble run with
  | case1 node => exact ⟨0, _, Nat.zero_le _, .none, rfl⟩
  | case2 run hrun hreduce =>
    exact ⟨0, run, Nat.zero_le _, .none, result?_of_fault? hrun (by rw [fault?, hreduce])⟩
  | case3 run hrun p e hreduce =>
    exact ⟨0, run, Nat.zero_le _, .none, result?_of_fault? hrun (by rw [fault?, hreduce])⟩
  | case4 run hrun p after hreduce ih =>
    obtain ⟨n, last, hn, hfolds, hresult⟩ := ih
    have hlt := operatorCount_reduce hreduce
    exact ⟨n + 1, last, by omega, .fold hreduce hfolds, hresult⟩

/-- **Precedences determine the tree of a chain.** Folding operands with binary operators between them
gives the tree of the only ordered fold that reads like them, whatever the precedences are. Folding any
run takes at most as many folds as it has operators, and then there is a tree or an error. -/
theorem assemble_chain (first : Node) (links : List Link) :
    (∃ t : Fold, assemble (chain first links) = .ok t.node ∧
      (t.items = chain first links ∧ t.Ordered) ∧
      ∀ t' : Fold, t'.items = chain first links ∧ t'.Ordered → t' = t) ∧
    ∀ run : Run, ∃ n last, n ≤ operatorCount run ∧ Folds n run last ∧
      last.result? = some (assemble run) := by
  obtain ⟨t, hitems, ht⟩ := Fold.exists_ordered first links
  refine ⟨⟨t, ?_, ⟨hitems, ht⟩, ?_⟩, assemble_folds⟩
  · rw [← hitems]
    exact Fold.assemble_items ht.canonical
  · intro t' h
    exact h.2.eq_of_items ht (h.1.trans hitems.symm)

end Run

end SlotScript
