import SlotScript.Proofs.Flat.Builder
import SlotScript.Proofs.Flat.Holding

/-!
# Folding by position

**Theorem (`Run.assemble_refines`).** Folding a run of links makes the tree that folding the run of
trees makes, in the same number of folds and with the same faults. It never reaches outside the run,
never picks an operand, and never follows a link that leads nowhere.

The flat builder looks for a ready operator by its position, and `Run.reduce` by the position where
the part of the run that it folds starts: its left operand, if it has one. Both take the first of the
tightest, and going from one position to the other keeps the order.
-/

namespace SlotScript.Flat

/-! ## Ready operators -/

namespace Run

variable {run : Run}

/-- An operator of precedence `p` is ready at position `i`. -/
def Ready (run : Run) (i p : Nat) : Prop :=
  ∃ item, run[i]? = some item ∧ run.readyAt i item = some p

/-- The best ready operator before a position: none, or the leftmost of the tightest. -/
def Best (run : Run) (i : Nat) : Option (Nat × Nat) → Prop
  | none => ∀ j < i, ∀ q, ¬ run.Ready j q
  | some (k, p) => k < i ∧ run.Ready k p ∧ ∀ j < i, ∀ q, run.Ready j q → q < p ∨ q = p ∧ k ≤ j

theorem best_succ {best : Option (Nat × Nat)} {i : Nat} (h : run.Best i best)
    (hi : ∀ q, ¬ run.Ready i q) : run.Best (i + 1) best := by
  have hlt : ∀ j < i + 1, ∀ q, run.Ready j q → j < i := by
    intro j hj q hq
    rcases Nat.lt_succ_iff_lt_or_eq.1 hj with hj | rfl
    · exact hj
    · exact absurd hq (hi q)
  cases best with
  | none => exact fun j hj q hq => h j (hlt j hj q hq) q hq
  | some best =>
    exact ⟨Nat.lt_succ_of_lt h.1, h.2.1, fun j hj q hq => h.2.2 j (hlt j hj q hq) q hq⟩

theorem pickFrom_best {best : Option (Nat × Nat)} {i : Nat} (hi : i ≤ run.length)
    (h : run.Best i best) : run.Best run.length (run.pickFrom best i (run.drop i)) := by
  generalize hrest : run.drop i = rest
  induction rest generalizing best i with
  | nil =>
    obtain rfl : i = run.length := Nat.le_antisymm hi (List.drop_eq_nil_iff.1 hrest)
    exact h
  | cons item rest ih =>
    have hitem : run[i]? = some item := by rw [← List.head?_drop, hrest]; rfl
    have hrest' : run.drop (i + 1) = rest := by rw [← List.tail_drop, hrest]; rfl
    have hi' : i + 1 ≤ run.length := (List.getElem?_eq_some_iff.1 hitem).1
    -- Only what `readyAt` finds at this position can be ready there.
    have honly : ∀ q, run.Ready i q → run.readyAt i item = some q := by
      rintro q ⟨item', hitem', hq⟩
      obtain rfl : item = item' := Option.some.inj (hitem.symm.trans hitem')
      exact hq
    unfold pickFrom
    split
    · rename_i hnone
      refine ih hi' (best_succ h fun q hq => ?_) hrest'
      rw [honly q hq] at hnone
      cases hnone
    · rename_i p hp
      refine ih hi' ⟨Nat.lt_succ_self i, ⟨item, hitem, hp⟩, fun j hj q hq => ?_⟩ hrest'
      rcases Nat.lt_succ_iff_lt_or_eq.1 hj with hj | rfl
      · exact absurd hq (h j hj q)
      · obtain rfl := Option.some.inj ((honly q hq).symm.trans hp)
        exact .inr ⟨rfl, Nat.le_refl _⟩
    · rename_i p k q hp
      obtain ⟨hk, hready, hbest⟩ := h
      refine ih hi' ?_ hrest'
      by_cases hqp : q < p
      · rw [if_pos hqp]
        refine ⟨Nat.lt_succ_self i, ⟨item, hitem, hp⟩, fun j hj r hr => ?_⟩
        rcases Nat.lt_succ_iff_lt_or_eq.1 hj with hj | rfl
        · have := hbest j hj r hr
          exact .inl (by omega)
        · obtain rfl := Option.some.inj ((honly r hr).symm.trans hp)
          exact .inr ⟨rfl, Nat.le_refl _⟩
      · rw [if_neg hqp]
        refine ⟨Nat.lt_succ_of_lt hk, hready, fun j hj r hr => ?_⟩
        rcases Nat.lt_succ_iff_lt_or_eq.1 hj with hj | rfl
        · exact hbest j hj r hr
        · obtain rfl := Option.some.inj ((honly r hr).symm.trans hp)
          omega

theorem pick_eq_none (h : run.pick = none) (i q : Nat) : ¬ run.Ready i q := by
  have hbest := pickFrom_best (Nat.zero_le run.length)
    (show run.Best 0 none from fun _ hj => absurd hj (Nat.not_lt_zero _))
  rw [List.drop_zero, Option.map_eq_none_iff.1 h] at hbest
  rintro ⟨item, hitem, hq⟩
  exact hbest i (List.getElem?_eq_some_iff.1 hitem).1 q ⟨item, hitem, hq⟩

theorem pick_eq_some {i : Nat} (h : run.pick = some i) : ∃ p, run.Ready i p ∧
    ∀ j q, run.Ready j q → q < p ∨ q = p ∧ i ≤ j := by
  have hbest := pickFrom_best (Nat.zero_le run.length)
    (show run.Best 0 none from fun _ hj => absurd hj (Nat.not_lt_zero _))
  obtain ⟨⟨k, p⟩, hk, rfl⟩ := Option.map_eq_some_iff.1 h
  rw [List.drop_zero, hk] at hbest
  refine ⟨p, hbest.2.1, fun j q hq => hbest.2.2 j ?_ q hq⟩
  obtain ⟨item, hitem, -⟩ := hq
  exact (List.getElem?_eq_some_iff.1 hitem).1

theorem isOperandAt_iff {i : Nat} : run.isOperandAt i = true ↔ ∃ link, run[i]? = some (.operand link) := by
  unfold isOperandAt
  split
  · rename_i link h
    exact iff_of_true rfl ⟨link, h⟩
  · rename_i h
    exact iff_of_false Bool.false_ne_true fun ⟨link, hlink⟩ => h link hlink

end Run

/-- Whether an operator stands between its operands. -/
def isBetween : Operator → Bool
  | .binary _ | .compound _ => true
  | .unary _ | .ret => false

namespace Run

variable {run : Run}

/-- A ready operator and its operands, from where the first of them stands. -/
inductive Redex (run : Run) : (start i p : Nat) → Prop
  | between {start p link link' : Nat} {op : Operator} {span : Span} :
    isBetween op = true → run[start]? = some (.operand link) →
    run[start + 1]? = some (.operator op p span) → run[start + 2]? = some (.operand link') →
    Redex run start (start + 1) p
  | front {start p link : Nat} {op : Operator} {span : Span} :
    isBetween op = false → run[start]? = some (.operator op p span) →
    run[start + 1]? = some (.operand link) → Redex run start start p
  | last {start p : Nat} {span : Span} : run[start]? = some (.operator .ret p span) →
    run.length = start + 1 → Redex run start start p

theorem ready_iff {i p : Nat} : run.Ready i p ↔ ∃ start, run.Redex start i p := by
  constructor
  · rintro ⟨item, hitem, hready⟩
    have hlt := (List.getElem?_eq_some_iff.1 hitem).1
    cases item with
    | operand link => cases hready
    | operator op q span =>
      cases op with
      | binary op =>
        simp only [readyAt, Option.ite_none_right_eq_some, Option.some.injEq, isOperandAt_iff] at hready
        obtain ⟨⟨hi, ⟨link, hlink⟩, link', hlink'⟩, rfl⟩ := hready
        obtain ⟨start, rfl⟩ := Nat.exists_eq_succ_of_ne_zero hi
        exact ⟨start, .between rfl hlink hitem hlink'⟩
      | compound op =>
        simp only [readyAt, Option.ite_none_right_eq_some, Option.some.injEq, isOperandAt_iff] at hready
        obtain ⟨⟨hi, ⟨link, hlink⟩, link', hlink'⟩, rfl⟩ := hready
        obtain ⟨start, rfl⟩ := Nat.exists_eq_succ_of_ne_zero hi
        exact ⟨start, .between rfl hlink hitem hlink'⟩
      | unary op =>
        simp only [readyAt, Option.ite_none_right_eq_some, Option.some.injEq, isOperandAt_iff] at hready
        obtain ⟨⟨link, hlink⟩, rfl⟩ := hready
        exact ⟨i, .front rfl hitem hlink⟩
      | ret =>
        simp only [readyAt, Option.ite_none_right_eq_some, Option.some.injEq, isOperandAt_iff] at hready
        obtain ⟨hlen | ⟨link, hlink⟩, rfl⟩ := hready
        · exact ⟨i, .last hitem (by omega)⟩
        · exact ⟨i, .front rfl hitem hlink⟩
  · rintro ⟨start, h⟩
    cases h with
    | @between _ link link' op span hop hlink hitem hlink' =>
      refine ⟨_, hitem, ?_⟩
      have hl : run.isOperandAt start = true := isOperandAt_iff.2 ⟨link, hlink⟩
      have hr : run.isOperandAt (start + 2) = true := isOperandAt_iff.2 ⟨link', hlink'⟩
      cases op with
      | binary op => simp [readyAt, hl, hr]
      | compound op => simp [readyAt, hl, hr]
      | unary op => cases hop
      | ret => cases hop
    | @front _ link op span hop hitem hlink =>
      refine ⟨_, hitem, ?_⟩
      have hr : run.isOperandAt (i + 1) = true := isOperandAt_iff.2 ⟨link, hlink⟩
      cases op with
      | binary op => cases hop
      | compound op => cases hop
      | unary op => simp [readyAt, hr]
      | ret => simp [readyAt, hr]
    | last hitem hlen => exact ⟨_, hitem, by simp [readyAt, hlen]⟩

/-- What stands further left starts further left. -/
theorem Redex.start_le {start start' i i' p p' : Nat} (h : run.Redex start i p)
    (h' : run.Redex start' i' p') (hi : i ≤ i') : start ≤ start' := by
  -- Two operators that start at one place are the same, so only one of them is between operands.
  have hclash : ∀ {op op' : Operator} {p p' : Nat} {span span' : Span},
      run[start' + 1]? = some (.operator op p span) → isBetween op = false →
      run[start' + 1]? = some (.operator op' p' span') → isBetween op' = true → False := by
    intro op op' p p' span span' hitem hop hitem' hop'
    rw [hitem] at hitem'
    obtain ⟨rfl, -, -⟩ : op = op' ∧ _ := by simpa using hitem'
    rw [hop] at hop'
    cases hop'
  cases h' with
  | between hop' _ hitem' _ =>
    cases h with
    | between => omega
    | front hop hitem _ =>
      rcases Nat.lt_or_eq_of_le hi with hi | rfl
      · omega
      · exact (hclash hitem hop hitem' hop').elim
    | last hitem _ =>
      rcases Nat.lt_or_eq_of_le hi with hi | rfl
      · omega
      · exact (hclash hitem rfl hitem' hop').elim
  | front => cases h <;> omega
  | last => cases h <;> omega

end Run

/-! ## Runs of links and runs of trees -/

/-- An operand holds its tree, and an operator is due a node. -/
inductive HeldRunItem (a : Arena) : Holding → RunItem → SlotScript.RunItem → Prop
  | operand {h : Holding} {link : Nat} {node : Node} :
    a.Held h link node → HeldRunItem a h (.operand link) (.operand node)
  | operator (op : Operator) (p : Nat) (span : Span) :
    HeldRunItem a .due (.operator op p span) (.operator op p span)

theorem HeldRunItem.grows {a a' : Arena} {h : Holding} {item : RunItem}
    {item' : SlotScript.RunItem} (hitem : HeldRunItem a h item item') (hg : a.Grows a') :
    HeldRunItem a' h item item' := by
  cases hitem with
  | operand hlink => exact .operand (hlink.grows hg)
  | operator op p span => exact .operator op p span

theorem HeldRunItem.of_operand {a : Arena} {h : Holding} {link : Nat} {item : SlotScript.RunItem}
    (hitem : HeldRunItem a h (.operand link) item) : ∃ node, item = .operand node ∧ a.Held h link node := by
  cases hitem with
  | operand hlink => exact ⟨_, rfl, hlink⟩

theorem HeldRunItem.of_operator {a : Arena} {h : Holding} {op : Operator} {p : Nat} {span : Span}
    {item : SlotScript.RunItem} (hitem : HeldRunItem a h (.operator op p span) item) :
    item = .operator op p span ∧ h = .due := by
  cases hitem with
  | operator => exact ⟨rfl, rfl⟩

/-- A run holds what its operands hold. -/
abbrev HeldRun (a : Arena) (h : Holding) (run : Run) (trees : SlotScript.Run) : Prop :=
  Each (HeldRunItem a) h run trees

namespace Run

variable {a : Arena} {tokens : Nat} {h rest : Holding} {run : Run} {trees : SlotScript.Run}

theorem drop_of_getElem? {i : Nat} {x : α} {xs : List α} (h : xs[i]? = some x) :
    xs.drop i = x :: xs.drop (i + 1) := by
  obtain ⟨hi, rfl⟩ := List.getElem?_eq_some_iff.1 h
  exact List.drop_eq_getElem_cons hi

/-- A ready operator of a run of trees is one of the run of links. -/
theorem redex_of_headRedex (hrun : HeldRun a h run trees) {start p : Nat}
    {node : Except BuildError Node} {after : SlotScript.Run}
    (hredex : SlotScript.Run.headRedex (trees.drop start) = some (p, node, after)) :
    ∃ i, run.Redex start i p := by
  obtain ⟨h₁, h₂, -, -, hdrop⟩ := hrun.split start
  have hat : ∀ k, run[start + k]? = (run.drop start)[k]? := fun k => (List.getElem?_drop ..).symm
  have hlen : run.length = start + (run.drop start).length ∨ run.drop start = [] := by
    rw [List.length_drop, List.drop_eq_nil_iff]
    omega
  generalize run.drop start = items at hdrop hat hlen
  have h0 := hat 0
  have h1 := hat 1
  have h2 := hat 2
  unfold SlotScript.Run.headRedex at hredex
  split at hredex
  · rename_i hdrop'
    rw [hdrop'] at hdrop
    obtain ⟨rfl, -⟩ : _ = p ∧ _ := by simpa using hredex
    rcases hdrop with _ | ⟨⟨_⟩, _ | ⟨⟨_⟩, _ | ⟨⟨_⟩, _⟩⟩⟩
    exact ⟨_, .between rfl h0 h1 h2⟩
  · rename_i hdrop'
    rw [hdrop'] at hdrop
    obtain ⟨rfl, -⟩ : _ = p ∧ _ := by simpa using hredex
    rcases hdrop with _ | ⟨⟨_⟩, _ | ⟨⟨_⟩, _ | ⟨⟨_⟩, _⟩⟩⟩
    exact ⟨_, .between rfl h0 h1 h2⟩
  · rename_i hdrop'
    rw [hdrop'] at hdrop
    obtain ⟨rfl, -⟩ : _ = p ∧ _ := by simpa using hredex
    rcases hdrop with _ | ⟨⟨_⟩, _ | ⟨⟨_⟩, _⟩⟩
    exact ⟨_, .front rfl h0 h1⟩
  · rename_i hdrop'
    rw [hdrop'] at hdrop
    obtain ⟨rfl, -⟩ : _ = p ∧ _ := by simpa using hredex
    rcases hdrop with _ | ⟨⟨_⟩, _ | ⟨⟨_⟩, _⟩⟩
    exact ⟨_, .front rfl h0 h1⟩
  · rename_i hdrop'
    rw [hdrop'] at hdrop
    obtain ⟨rfl, -⟩ : _ = p ∧ _ := by simpa using hredex
    rcases hdrop with _ | ⟨⟨_⟩, ⟨_⟩⟩
    exact ⟨_, .last h0 (hlen.resolve_right (List.cons_ne_nil _ _))⟩
  · cases hredex

/-- A new node takes the place of the items that it was made of. -/
theorem splice_refines {cell : Cell} {span : Span} {start last : Nat} {node : Node}
    {before after : SlotScript.Run} {h₁ h₂ : Holding} (hlast : last < run.length)
    (halloc : Refines (Yields a tokens (h₁ + h₂ + rest) Arena.Held) (a.alloc cell span) (.ok node))
    (hbefore : HeldRun a h₁ (run.take start) before)
    (hafter : HeldRun a h₂ (run.drop (last + 1)) after) :
    Refines (Yields a tokens rest HeldRun)
      (a.alloc cell span >>= fun out => run.splice start last out.1 >>= fun run => pure (run, out.2))
      (.ok (before ++ .operand node :: after)) := by
  refine halloc.bind_left fun ⟨link, a'⟩ ⟨hg, h, hheld, hc⟩ => ?_
  rw [splice, if_pos hlast]
  refine .ok ⟨hg, h₁ + (h + h₂), ?_, hc.of_eq (by abel)⟩
  exact (hbefore.imp fun _ _ _ h => h.grows hg).append
    (.cons (.operand hheld) (hafter.imp fun _ _ _ h => h.grows hg))

theorem operandAt_eq {i link : Nat} (h : run[i]? = some (.operand link)) :
    run.operandAt i = .ok link := by
  rw [operandAt, h]

theorem neighbours_eq {start link link' : Nat} (h : run[start]? = some (.operand link))
    (h' : run[start + 2]? = some (.operand link')) :
    run.neighbours (start + 1) = .ok (link, link') := by
  rw [neighbours, if_neg (Nat.succ_ne_zero start), Nat.add_sub_cancel, operandAt_eq h,
    operandAt_eq h']
  rfl

/-- A compound assignment takes the name on its left over, and is stopped by anything else there. -/
theorem foldAt_compound (htokens : tokens < tokenLimit) {start p link link' : Nat} {op : BinaryOp}
    {span : Span} {left right : Node} {before after : SlotScript.Run} {hl hr h₁ h₃ : Holding}
    (hlink : run[start]? = some (.operand link))
    (hitem : run[start + 1]? = some (.operator (.compound op) p span))
    (hlink' : run[start + 2]? = some (.operand link'))
    (hleft : a.Held hl link left) (hright : a.Held hr link' right)
    (hbefore : HeldRun a h₁ (run.take start) before)
    (hafter : HeldRun a h₃ (run.drop (start + 2 + 1)) after)
    (hc : a.Covers tokens (Holding.due + (hl + hr) + (h₁ + h₃ + rest))) :
    Refines (Yields a tokens rest HeldRun) (run.foldAt (start + 1) a)
      ((SlotScript.Run.compoundNode op left right span).map fun n => before ++ .operand n :: after) := by
  have hlast : start + 2 < run.length := (List.getElem?_eq_some_iff.1 hlink').1
  rw [foldAt, hitem]
  obtain ⟨cell, hentry, hlook⟩ := hleft.entry
  simp only [neighbours_eq hlink hlink', hentry, ok_bind]
  rcases hlook with ⟨name, var, nameSpan, rfl, rfl⟩ | ⟨range, body, span', rfl, rfl⟩ |
    ⟨target, var, j, value, span', rfl, hj, rfl⟩ | ⟨hcell, hnode⟩
  · simp only [hright.spanOf, ok_bind]
    -- The name is a part of the assignment now, and nobody holds its entry any more.
    have hcov : a.Covers tokens (Holding.due + hr + (h₁ + h₃ + rest)) :=
      (hc.of_eq (by abel) : a.Covers tokens (hl + _)).forget
    refine splice_refines hlast (Arena.alloc_refines htokens rfl ?_ ?_ hcov) hbefore hafter
    · simp [Entry.node?, hright.1]
    · simp [hright.2]
  · exact .fault _
  · exact .fault _
  · have hfault : SlotScript.Run.compoundNode op left right span =
        .error { fault := .invalidTarget, span := left.span } := by
      unfold SlotScript.Run.compoundNode
      split
      · cases hnode
      · rfl
    rw [hfault]
    split
    · cases hcell
    · exact .fault _

/-- Folding a ready operator does what folding it in the run of trees does. -/
theorem foldAt_refines (htokens : tokens < tokenLimit) {start i p : Nat}
    (hredex : run.Redex start i p) (hrun : HeldRun a h run trees) (hc : a.Covers tokens (h + rest)) :
    ∃ node after, SlotScript.Run.headRedex (trees.drop start) = some (p, node, after) ∧
      Refines (Yields a tokens rest HeldRun) (run.foldAt i a)
        (node.map fun n => trees.take start ++ .operand n :: after) := by
  obtain ⟨h₁, h₂, rfl, hbefore, hdrop⟩ := hrun.split start
  generalize trees.take start = before at hbefore ⊢
  generalize trees.drop start = later at hdrop ⊢
  cases hredex with
  | @between _ link link' op span hop hlink hitem hlink' =>
    have hlast : start + 2 < run.length := (List.getElem?_eq_some_iff.1 hlink').1
    rw [drop_of_getElem? hlink, drop_of_getElem? hitem, drop_of_getElem? hlink'] at hdrop
    obtain ⟨hl, _, _, _, rfl, rfl, hleft', hdrop⟩ := hdrop.of_cons_left
    obtain ⟨_, _, _, _, rfl, rfl, hop', hdrop⟩ := hdrop.of_cons_left
    obtain ⟨hr, h₃, _, after, rfl, rfl, hright', hafter⟩ := hdrop.of_cons_left
    obtain ⟨left, rfl, hleft⟩ := hleft'.of_operand
    obtain ⟨right, rfl, hright⟩ := hright'.of_operand
    obtain ⟨rfl, rfl⟩ := hop'.of_operator
    have hcov : a.Covers tokens (Holding.due + (hl + hr) + (h₁ + h₃ + rest)) := hc.of_eq (by abel)
    cases op with
    | binary op =>
      refine ⟨_, _, rfl, ?_⟩
      rw [foldAt, hitem]
      simp only [neighbours_eq hlink hlink', hleft.spanOf, hright.spanOf, ok_bind]
      refine splice_refines hlast (Arena.alloc_refines htokens rfl ?_ ?_ hcov) hbefore hafter
      · simp [Entry.node?, hleft.1, hright.1]
      · simp [hleft.2, hright.2]
    | compound op =>
      exact ⟨_, _, rfl, foldAt_compound htokens hlink hitem hlink' hleft hright hbefore hafter hcov⟩
    | unary op => cases hop
    | ret => cases hop
  | @front _ link op span hop hitem hlink =>
    have hlast : start + 1 < run.length := (List.getElem?_eq_some_iff.1 hlink).1
    rw [drop_of_getElem? hitem, drop_of_getElem? hlink] at hdrop
    obtain ⟨_, _, _, _, rfl, rfl, hop', hdrop⟩ := hdrop.of_cons_left
    obtain ⟨hl, h₃, _, after, rfl, rfl, hoperand', hafter⟩ := hdrop.of_cons_left
    obtain ⟨operand, rfl, hoperand⟩ := hoperand'.of_operand
    obtain ⟨rfl, rfl⟩ := hop'.of_operator
    have hcov : a.Covers tokens (Holding.due + hl + (h₁ + h₃ + rest)) := hc.of_eq (by abel)
    cases op with
    | binary op => cases hop
    | compound op => cases hop
    | unary op =>
      refine ⟨_, _, rfl, ?_⟩
      rw [foldAt, hitem]
      simp only [operandAt_eq hlink, hoperand.spanOf, ok_bind]
      refine splice_refines hlast (Arena.alloc_refines htokens rfl ?_ ?_ hcov) hbefore hafter
      · simp [Entry.node?, hoperand.1]
      · simp [hoperand.2]
    | ret =>
      refine ⟨_, _, rfl, ?_⟩
      rw [foldAt, hitem]
      simp only [if_pos hlast, operandAt_eq hlink, hoperand.spanOf, ok_bind]
      refine splice_refines hlast (Arena.alloc_refines htokens rfl ?_ ?_ hcov) hbefore hafter
      · simp [Entry.node?, optional?, hoperand.1]
      · simp [hoperand.2]
  | @last _ span hitem hlen =>
    have hend : run.drop (start + 1) = [] := List.drop_eq_nil_of_le (by omega)
    rw [drop_of_getElem? hitem, hend] at hdrop
    obtain ⟨_, h₃, _, after, rfl, rfl, hop', hafter⟩ := hdrop.of_cons_left
    obtain ⟨rfl, rfl⟩ := hop'.of_operator
    rw [← hend] at hafter
    have hcov : a.Covers tokens (Holding.due + 0 + (h₁ + h₃ + rest)) := hc.of_eq (by abel)
    obtain rfl : after = [] := List.eq_nil_of_length_eq_zero (by simpa [hend] using hafter.length_eq.symm)
    refine ⟨_, _, rfl, ?_⟩
    rw [foldAt, hitem]
    simp only [if_neg (show ¬ start + 1 < run.length by omega)]
    refine splice_refines (by omega) (Arena.alloc_refines htokens rfl ?_ ?_ hcov) hbefore hafter
    · simp [Entry.node?, optional?]
    · simp

/-- The fold that is best in the order of positions is the one that is made. -/
theorem reduce_of_best {start p : Nat} {node : Except BuildError Node} {after : SlotScript.Run}
    (hredex : SlotScript.Run.headRedex (trees.drop start) = some (p, node, after))
    (hbest : ∀ j q, SlotScript.Run.Ready trees j q → q < p ∨ q = p ∧ start ≤ j) :
    SlotScript.Run.reduce trees =
      some (p, node.map fun n => trees.take start ++ .operand n :: after) := by
  cases hreduce : SlotScript.Run.reduce trees with
  | none => exact absurd ⟨node, after, hredex⟩ (SlotScript.Run.reduce_eq_none hreduce)
  | some out =>
    obtain ⟨i, node', after', hredex', hout, hbest'⟩ := SlotScript.Run.reduce_eq_some hreduce
    have hle := hbest i out.1 ⟨node', after', hredex'⟩
    have hle' := hbest' start p ⟨node, after, hredex⟩
    obtain ⟨hp, rfl⟩ : out.1 = p ∧ i = start := by omega
    obtain ⟨-, rfl, rfl⟩ : _ ∧ node = node' ∧ after = after' := by
      simpa [hredex] using hredex'
    exact congrArg some (Prod.ext hp hout)

theorem pick_refines (htokens : tokens < tokenLimit) {i : Nat} (hpick : run.pick = some i)
    (hrun : HeldRun a h run trees) (hc : a.Covers tokens (h + rest)) :
    ∃ p out, SlotScript.Run.reduce trees = some (p, out) ∧
      Refines (Yields a tokens rest HeldRun) (run.foldAt i a) out := by
  obtain ⟨p, hready, hbest⟩ := pick_eq_some hpick
  obtain ⟨start, hredex⟩ := ready_iff.1 hready
  obtain ⟨node, after, hhead, hfold⟩ := foldAt_refines htokens hredex hrun hc
  refine ⟨p, _, reduce_of_best hhead fun j q hq => ?_, hfold⟩
  obtain ⟨node', after', hq⟩ := hq
  obtain ⟨k, hredex'⟩ := redex_of_headRedex hrun hq
  rcases hbest k q (ready_iff.2 ⟨j, hredex'⟩) with hlt | ⟨rfl, hle⟩
  · exact .inl hlt
  · exact .inr ⟨rfl, hredex.start_le hredex' hle⟩

theorem reduce_of_pick_none (hpick : run.pick = none) (hrun : HeldRun a h run trees) :
    SlotScript.Run.reduce trees = none := by
  cases hreduce : SlotScript.Run.reduce trees with
  | none => rfl
  | some out =>
    obtain ⟨j, node, after, hhead, -, -⟩ := SlotScript.Run.reduce_eq_some hreduce
    obtain ⟨k, hredex⟩ := redex_of_headRedex hrun hhead
    exact absurd (ready_iff.2 ⟨j, hredex⟩) (pick_eq_none hpick k out.1)

/-! ## Runs that are stuck -/

theorem itemSpan_eq {item : RunItem} {item' : SlotScript.RunItem} (hitem : HeldRunItem a h item item') :
    itemSpan a item = .ok item'.span := by
  cases hitem with
  | operand hlink => exact hlink.spanOf
  | operator => rfl

theorem find?_isOperator (hrun : HeldRun a h run trees) :
    (run.find? isOperator = none ∧ trees.find? SlotScript.RunItem.isOperator = none) ∨
      ∃ h item item', run.find? isOperator = some item ∧
        trees.find? SlotScript.RunItem.isOperator = some item' ∧ HeldRunItem a h item item' := by
  induction hrun with
  | nil => exact .inl ⟨rfl, rfl⟩
  | cons hitem _ ih =>
    cases hitem with
    | operand hlink => exact ih
    | operator op p span => exact .inr ⟨_, _, _, rfl, rfl, .operator op p span⟩

theorem stuck_refines {R : α → β → Prop} (hrun : HeldRun a h run trees) :
    Refines R (run.stuck a) (.error (SlotScript.Run.stuck trees)) := by
  unfold stuck SlotScript.Run.stuck
  rcases find?_isOperator hrun with ⟨hfind, hfind'⟩ | ⟨h, item, item', hfind, hfind', hitem⟩
  · rw [hfind, hfind']
    rcases hrun with _ | ⟨_, _ | ⟨hitem, _⟩⟩
    · exact .fault _
    · exact .fault _
    · simp only [List.getElem?_cons_succ, List.getElem?_cons_zero, itemSpan_eq hitem, ok_bind]
      exact .fault _
  · rw [hfind, hfind']
    simp only [itemSpan_eq hitem, ok_bind]
    exact .fault _

/-! ## The whole fold -/

theorem assembleIn_refines (htokens : tokens < tokenLimit) {rounds : Nat}
    (hrounds : trees.operatorCount < rounds) (hrun : HeldRun a h run trees)
    (hc : a.Covers tokens (h + rest)) :
    Refines (Yields a tokens rest Arena.Held) (run.assembleIn rounds a)
      (SlotScript.Run.assemble trees) := by
  induction rounds generalizing a h run trees with
  | zero => omega
  | succ rounds ih =>
    by_cases hsingle : ∃ link, run = [.operand link]
    · obtain ⟨link, rfl⟩ := hsingle
      obtain ⟨h₁, h₂, _, _, rfl, rfl, hitem, hnil⟩ := hrun.of_cons_left
      obtain ⟨node, rfl, hlink⟩ := hitem.of_operand
      cases hnil
      rw [add_zero] at hc
      rw [SlotScript.Run.assemble]
      exact .ok ⟨.refl a, h₁, hlink, hc⟩
    · have htrees : ∀ node, trees ≠ [.operand node] := by
        rintro node rfl
        rcases hrun with _ | ⟨⟨_⟩, ⟨_⟩⟩
        exact hsingle ⟨_, rfl⟩
      rw [assembleIn]
      · cases hpick : run.pick with
        | none =>
          rw [SlotScript.Run.assemble_of_reduce_none (reduce_of_pick_none hpick hrun) htrees]
          exact stuck_refines hrun
        | some i =>
          obtain ⟨p, out, hreduce, hfold⟩ := pick_refines htokens hpick hrun hc
          simp only
          generalize run.foldAt i a = folded at hfold ⊢
          cases hfold with
          | fault e =>
            rw [SlotScript.Run.assemble_of_reduce_error hreduce]
            exact .fault e
          | ok hyields =>
            obtain ⟨hg, h', hrun', hc'⟩ := hyields
            rw [SlotScript.Run.assemble_of_reduce hreduce]
            have hcount := SlotScript.Run.operatorCount_reduce hreduce
            exact (ih (by omega) hrun' hc').imp fun _ _ h => h.trans hg
      · exact fun link hlink => hsingle ⟨link, hlink⟩

theorem assemble_refines (htokens : tokens < tokenLimit) (hrun : HeldRun a h run trees)
    (hc : a.Covers tokens (h + rest)) :
    Refines (Yields a tokens rest Arena.Held) (run.assemble a) (SlotScript.Run.assemble trees) := by
  refine assembleIn_refines htokens ?_ hrun hc
  rw [hrun.length_eq]
  exact Nat.lt_succ_of_le List.countP_le_length

end Run

end SlotScript.Flat
