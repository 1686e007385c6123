import SlotScript.Tree.Run

/-!
# Folding a run gives the tree it was written from

A `Fold` is an expression over finished operands, with the precedence of every operator. Read
from left to right it is a run. It is *canonical* if its precedences lead back to its shape: to
the left of an operator between two operands no operator binds looser, and to the right of any
operator all bind tighter, or the operand starts with its own operator, which shields it.

**Theorem (`assemble_items`).** Folding the run of a canonical fold succeeds and gives its node.

The proof follows `Run.reduce`, which takes the leftmost of the tightest ready operators. An
operator that is ready in the run may still wait for an operand in the tree. Then that operand
holds a ready operator which is preferred: one that binds tighter if the operand is on the right,
and one that binds no looser and stands further left if it is on the left. So the operator taken
has finished operands in the tree too, and taking it is a `Fold.Step`, which keeps the node.
-/

namespace SlotScript

/-! ## Ready operators -/

namespace Run

/-- An operator of precedence `p` is ready at position `i`. -/
def Ready (run : Run) (i p : Nat) : Prop :=
  ∃ node after, headRedex (run.drop i) = some (p, node, after)

theorem ready_zero {run : Run} {p : Nat} {node : Except BuildError Node} {after : Run}
    (h : headRedex run = some (p, node, after)) : Ready run 0 p :=
  ⟨node, after, by simpa using h⟩

theorem ready_succ {item : RunItem} {run : Run} {i p : Nat} :
    Ready (item :: run) (i + 1) p ↔ Ready run i p := by
  simp [Ready]

theorem not_ready_nil {i p : Nat} : ¬ Ready [] i p := by
  simp [Ready, headRedex]

theorem Ready.append_left {run : Run} {i p : Nat} (h : Ready run i p) (pre : Run) :
    Ready (pre ++ run) (pre.length + i) p := by
  obtain ⟨node, after, h⟩ := h
  refine ⟨node, after, ?_⟩
  rw [List.drop_append, List.drop_eq_nil_of_le (by omega), List.nil_append]
  simpa using h

/-- What an operator at the front of a run makes of its operands, and what it leaves. -/
inductive Makes : Run → (p : Nat) → Node → Run → Prop
  | binary (op : BinaryOp) (left right : Node) (p : Nat) (span : Span) (rest : Run) :
    Makes (.operand left :: .operator (.binary op) p span :: .operand right :: rest) p
      (.binary op left right ((left.span.merge right.span).merge span)) rest
  /-- Only a name is assigned to. -/
  | compound (op : BinaryOp) (name : String) (var : VarRef) (place : Span) (value : Node) (p : Nat)
    (span : Span) (rest : Run) :
    Makes (.operand (.ident name var place) :: .operator (.compound op) p span ::
        .operand value :: rest) p
      (.assign name .unresolved .plain (some op) value ((place.merge value.span).merge span)) rest
  | unary (op : UnaryOp) (operand : Node) (p : Nat) (span : Span) (rest : Run) :
    Makes (.operator (.unary op) p span :: .operand operand :: rest) p
      (.unary op operand (span.merge operand.span)) rest
  | ret (value : Node) (p : Nat) (span : Span) (rest : Run) :
    Makes (.operator .ret p span :: .operand value :: rest) p
      (.ret (some value) (span.merge value.span)) rest
  /-- A `return` at the end of the run has no value. -/
  | bareRet (p : Nat) (span : Span) : Makes [.operator .ret p span] p (.ret none span) []

theorem makes_of_headRedex {run after : Run} {p : Nat} {node : Node}
    (h : headRedex run = some (p, .ok node, after)) : Makes run p node after := by
  unfold headRedex at h
  split at h
  · obtain ⟨rfl, rfl, rfl⟩ : _ = p ∧ _ = node ∧ _ = after := by simpa using h
    exact .binary ..
  · rename_i target op q span value rest
    obtain ⟨rfl, hnode, rfl⟩ : q = p ∧ compoundNode op target value span = .ok node ∧ _ = after := by
      simpa using h
    cases target with
    | ident name var place =>
      cases hnode
      exact .compound ..
    | _ => cases hnode
  · obtain ⟨rfl, rfl, rfl⟩ : _ = p ∧ _ = node ∧ _ = after := by simpa using h
    exact .unary ..
  · obtain ⟨rfl, rfl, rfl⟩ : _ = p ∧ _ = node ∧ _ = after := by simpa using h
    exact .ret ..
  · obtain ⟨rfl, rfl, rfl⟩ : _ = p ∧ _ = node ∧ after = [] := by simpa using h
    exact .bareRet ..
  · cases h

/-- If nothing is ready, there is nothing to fold. -/
theorem reduce_eq_none {run : Run} (h : reduce run = none) {i p : Nat} : ¬ Ready run i p := by
  induction run generalizing i with
  | nil => exact not_ready_nil
  | cons item rest ih =>
    simp only [reduce] at h
    split at h
    · split at h <;> cases h
    · cases h
    · rename_i hhead
      cases i with
      | zero =>
        rintro ⟨node, after, hready⟩
        rw [List.drop_zero, hhead] at hready
        cases hready
      | succ i =>
        rw [ready_succ]
        exact ih (by simpa using h)

/-- The operator that is folded is ready, no ready operator binds tighter, and those that bind
as tightly stand to its right. -/
theorem reduce_eq_some {run : Run} {p : Nat} {out : Except BuildError Run}
    (h : reduce run = some (p, out)) :
    ∃ i node after, headRedex (run.drop i) = some (p, node, after) ∧
      out = node.map (fun n => run.take i ++ .operand n :: after) ∧
      ∀ j q, Ready run j q → q < p ∨ q = p ∧ i ≤ j := by
  induction run generalizing p out with
  | nil => cases h
  | cons item rest ih =>
    -- Whatever is folded behind the first item is folded in the rest.
    have hlater : ∀ p out,
        (reduce rest).map (Prod.map id (Except.map (item :: ·))) = some (p, out) →
        ∃ i node after, headRedex (rest.drop i) = some (p, node, after) ∧
          out = node.map (fun n => item :: rest.take i ++ .operand n :: after) ∧
          ∀ j q, Ready rest j q → q < p ∨ q = p ∧ i ≤ j := by
      intro p out hmap
      simp only [Option.map_eq_some_iff, Prod.exists, Prod.map_apply, Prod.mk.injEq, id_eq] at hmap
      obtain ⟨p, out', hrest, rfl, rfl⟩ := hmap
      obtain ⟨i, node, after, hhead, rfl, hbest⟩ := ih hrest
      refine ⟨i, node, after, hhead, ?_, hbest⟩
      cases node <;> rfl
    simp only [reduce] at h
    split at h
    · rename_i p₁ node after p₂ out₂ hhead hrest
      obtain ⟨i, node₂, after₂, hhead₂, hout, hbest⟩ := hlater _ _ hrest
      split at h
      · obtain ⟨rfl, rfl⟩ : p₂ = p ∧ out₂ = out := by simpa using h
        refine ⟨i + 1, node₂, after₂, hhead₂, hout, ?_⟩
        rintro (_ | j) q hq
        · obtain ⟨node', after', hq⟩ := hq
          rw [List.drop_zero, hhead] at hq
          obtain ⟨rfl, -⟩ : p₁ = q ∧ _ := by simpa using hq
          exact Or.inl (by assumption)
        · rcases hbest j q (ready_succ.mp hq) with hlt | ⟨rfl, hle⟩
          · exact Or.inl hlt
          · exact Or.inr ⟨rfl, by omega⟩
      · obtain ⟨rfl, rfl⟩ : p₁ = p ∧ _ = out := by simpa using h
        refine ⟨0, node, after, hhead, rfl, ?_⟩
        rintro (_ | j) q hq
        · obtain ⟨node', after', hq⟩ := hq
          rw [List.drop_zero, hhead] at hq
          obtain ⟨rfl, -⟩ : p₁ = q ∧ _ := by simpa using hq
          exact Or.inr ⟨rfl, Nat.le_refl 0⟩
        · rcases hbest j q (ready_succ.mp hq) with hlt | ⟨rfl, -⟩
          · exact Or.inl (by omega)
          · omega
    · rename_i p₁ node after hhead hrest
      obtain ⟨rfl, rfl⟩ : p₁ = p ∧ _ = out := by simpa using h
      refine ⟨0, node, after, hhead, rfl, ?_⟩
      have hnone : reduce rest = none := by simpa using hrest
      rintro (_ | j) q hq
      · obtain ⟨node', after', hq⟩ := hq
        rw [List.drop_zero, hhead] at hq
        obtain ⟨rfl, -⟩ : p₁ = q ∧ _ := by simpa using hq
        exact Or.inr ⟨rfl, Nat.le_refl 0⟩
      · exact absurd (ready_succ.mp hq) (reduce_eq_none hnone)
    · rename_i hhead
      obtain ⟨i, node, after, hhead₂, hout, hbest⟩ := hlater _ _ h
      refine ⟨i + 1, node, after, hhead₂, hout, ?_⟩
      rintro (_ | j) q hq
      · obtain ⟨node', after', hq⟩ := hq
        rw [List.drop_zero, hhead] at hq
        cases hq
      · rcases hbest j q (ready_succ.mp hq) with hlt | ⟨rfl, hle⟩
        · exact Or.inl hlt
        · exact Or.inr ⟨rfl, by omega⟩

/-- What stands behind a run that ends in an operand does not touch its first operator. -/
theorem headRedex_append {run : Run} {node : Node} (hlast : run.getLast? = some (.operand node))
    (hlen : 2 ≤ run.length) (post : Run) :
    headRedex (run ++ post) = (headRedex run).map (Prod.map id (Prod.map id (· ++ post))) := by
  rcases run with _ | ⟨first, _ | ⟨second, rest⟩⟩
  · simp at hlen
  · simp at hlen
  · cases first with
    | operand a =>
      cases second with
      | operand b => simp [headRedex]
      | operator op p span =>
        rcases rest with _ | ⟨_ | _, rest⟩
        · simp at hlast
        · cases op <;> simp [headRedex]
        · cases op <;> simp [headRedex]
    | operator op p span => cases second <;> cases op <;> simp [headRedex]

/-- The same from any position before the last operand. -/
theorem headRedex_drop_append {run : Run} {i : Nat} {last : Node}
    (hlast : run.getLast? = some (.operand last)) (hi : i + 1 < run.length) (post : Run) :
    headRedex ((run ++ post).drop i) =
      (headRedex (run.drop i)).map (Prod.map id (Prod.map id (· ++ post))) := by
  have hdrop : (run.drop i).getLast? = some (.operand last) := by
    rw [List.getLast?_drop, if_neg (by omega), hlast]
  have hlen : 2 ≤ (run.drop i).length := by
    rw [List.length_drop]
    omega
  rw [List.drop_append_of_le_length (by omega), headRedex_append hdrop hlen]

/-- A ready operator of a run that ends in an operand starts before that operand. -/
theorem Ready.succ_lt_length {run : Run} {i p : Nat} {last : Node} (h : Ready run i p)
    (hlast : run.getLast? = some (.operand last)) : i + 1 < run.length := by
  obtain ⟨node, after, h⟩ := h
  have hlen := List.length_drop (i := i) (l := run)
  have hdrop := List.getLast?_drop (i := i) (l := run)
  rcases hrun : run.drop i with _ | ⟨item, _ | ⟨second, rest⟩⟩
  · rw [hrun] at h
    cases h
  · rw [hrun] at h hdrop
    split at hdrop
    · cases hdrop
    · rw [hlast] at hdrop
      obtain rfl : item = .operand last := by simpa using hdrop
      cases h
  · rw [hrun] at hlen
    simp only [List.length_cons] at hlen
    omega

theorem Ready.append_right {run : Run} {i p : Nat} {last : Node} (h : Ready run i p)
    (hlast : run.getLast? = some (.operand last)) (post : Run) : Ready (run ++ post) i p := by
  have hi := h.succ_lt_length hlast
  obtain ⟨node, after, h⟩ := h
  refine ⟨node, after ++ post, ?_⟩
  rw [headRedex_drop_append hlast hi, h]
  rfl

/-- An operator between two operands is ready if an operand follows it. -/
theorem headRedex_between {a : Node} {op : BinaryOp} {p q : Nat} {span : Span} {run after : Run}
    {out : Except BuildError Node}
    (h : headRedex (.operand a :: .operator (.binary op) p span :: run) = some (q, out, after)) :
    p = q ∧ ∃ b, run = .operand b :: after ∧
      out = .ok (.binary op a b ((a.span.merge b.span).merge span)) := by
  rcases run with _ | ⟨b | _, rest⟩
  · cases h
  · obtain ⟨rfl, rfl, rfl⟩ : p = q ∧ _ = out ∧ rest = after := by simpa [headRedex] using h
    exact ⟨rfl, b, rfl, rfl⟩
  · cases h

theorem assemble_of_reduce {run after : Run} {p : Nat} (h : reduce run = some (p, .ok after)) :
    assemble run = assemble after := by
  rw [assemble]
  · split <;> simp_all
  · rintro node rfl
    cases h

theorem assemble_of_reduce_error {run : Run} {p : Nat} {e : BuildError}
    (h : reduce run = some (p, .error e)) : assemble run = .error e := by
  rw [assemble]
  · split <;> simp_all
  · rintro node rfl
    cases h

theorem assemble_of_reduce_none {run : Run} (h : reduce run = none)
    (hrun : ∀ node, run ≠ [.operand node]) : assemble run = .error (stuck run) := by
  rw [assemble]
  · split <;> simp_all
  · exact hrun

/-- What holds of a single operand, and of a run if it holds after a fold, holds of every run that
folds to a tree. -/
theorem assemble_ok_induction {motive : Run → Node → Prop}
    (leaf : ∀ node, motive [.operand node] node)
    (fold : ∀ run p after node, reduce run = some (p, .ok after) → motive after node →
      motive run node)
    {run : Run} {node : Node} (h : assemble run = .ok node) : motive run node := by
  fun_induction assemble run with
  | case1 operand =>
    cases h
    exact leaf node
  | case2 run hrun hreduce => cases h
  | case3 run hrun p e hreduce => cases h
  | case4 run hrun p after hreduce ih => exact fold run p after node hreduce (ih h)

end Run

/-! ## Folds -/

/-- An operator that comes before its operand; of a compound assignment, together with the name
on its left. -/
inductive Front where
  /-- A compound assignment to a name. -/
  | compound (op : BinaryOp) (target : String) (var : VarRef) (place : Span)
  /-- An operator in front of its operand. -/
  | unary (op : UnaryOp)
  /-- A `return` with a value. -/
  | ret

namespace Front

/-- What stands before the operand. -/
def items (p : Nat) (span : Span) : Front → Run
  | compound op target var place =>
    [.operand (.ident target var place), .operator (.compound op) p span]
  | unary op => [.operator (.unary op) p span]
  | ret => [.operator .ret p span]

/-- The node that the operator makes of its operand. -/
def node (span : Span) (operand : Node) : Front → Node
  | compound op target _ place =>
    .assign target .unresolved .plain (some op) operand ((place.merge operand.span).merge span)
  | unary op => .unary op operand (span.merge operand.span)
  | ret => .ret (some operand) (span.merge operand.span)

/-- Whether nothing stands before the operator. -/
def leads : Front → Bool
  | compound .. => false
  | unary _ | ret => true

theorem headRedex_items (op : Front) (p : Nat) (span : Span) (operand : Node) (rest : Run) :
    Run.headRedex (op.items p span ++ .operand operand :: rest) =
      some (p, .ok (op.node span operand), rest) := by
  cases op <;> rfl

/-- It is ready only if an operand follows, and only where it starts. -/
theorem of_headRedex_items {op : Front} {p q i : Nat} {span : Span} {run after : Run}
    {out : Except BuildError Node} (hrun : run ≠ []) (hi : i < (op.items p span).length)
    (h : Run.headRedex ((op.items p span ++ run).drop i) = some (q, out, after)) :
    i = 0 ∧ p = q ∧ ∃ a, run = .operand a :: after ∧ out = .ok (op.node span a) := by
  rcases run with _ | ⟨a | _, rest⟩
  · exact absurd rfl hrun
  · cases op with
    | compound op target var place =>
      rcases i with _ | _ | i
      · obtain ⟨rfl, rfl, rfl⟩ : p = q ∧ _ = out ∧ rest = after := by
          simpa [items, Run.headRedex] using h
        exact ⟨rfl, rfl, a, rfl, rfl⟩
      · cases h
      · exact absurd hi (by simp [items])
    | _ =>
      obtain rfl : i = 0 := by simpa [items] using hi
      obtain ⟨rfl, rfl, rfl⟩ : p = q ∧ _ = out ∧ rest = after := by
        simpa [items, Run.headRedex] using h
      exact ⟨rfl, rfl, a, rfl, rfl⟩
  · cases op with
    | compound op target var place =>
      rcases i with _ | _ | i
      · cases h
      · cases h
      · exact absurd hi (by simp [items])
    | _ =>
      obtain rfl : i = 0 := by simpa [items] using hi
      cases h

end Front

/-- An expression over finished operands, with the precedences of its operators. -/
inductive Fold where
  /-- A finished operand. -/
  | leaf (node : Node)
  /-- An operator between its operands. -/
  | between (op : BinaryOp) (p : Nat) (span : Span) (left right : Fold)
  /-- An operator before its operand. -/
  | front (op : Front) (p : Nat) (span : Span) (operand : Fold)

namespace Fold

/-- The expression from left to right. -/
def items : Fold → Run
  | leaf node => [.operand node]
  | between op p span left right =>
    left.items ++ .operator (.binary op) p span :: right.items
  | front op p span operand => op.items p span ++ operand.items

/-- The tree of the expression. -/
def node : Fold → Node
  | leaf node => node
  | between op _ span left right =>
    .binary op left.node right.node ((left.node.span.merge right.node.span).merge span)
  | front op _ span operand => op.node span operand.node

/-- The precedences of the operators. -/
def precedences : Fold → List Nat
  | leaf _ => []
  | between _ p _ left right => left.precedences ++ p :: right.precedences
  | front _ p _ operand => p :: operand.precedences

/-- Whether the expression starts with the operator that makes it. -/
def leads : Fold → Bool
  | front op _ _ _ => op.leads
  | _ => false

/-- The expression can stand to the right of an operator of precedence `p`. -/
def Under (p : Nat) (t : Fold) : Prop := t.leads = true ∨ ∀ q ∈ t.precedences, p < q

/-- The precedences lead back to the shape of the expression. -/
def Canonical : Fold → Prop
  | leaf _ => True
  | between _ p _ left right =>
    left.Canonical ∧ right.Canonical ∧ (∀ q ∈ left.precedences, p ≤ q) ∧ right.Under p
  | front _ p _ operand => operand.Canonical ∧ operand.Under p

theorem items_getLast? (t : Fold) : ∃ node, t.items.getLast? = some (.operand node) := by
  induction t with
  | leaf node => exact ⟨node, rfl⟩
  | between op p span left right _ ih =>
    obtain ⟨node, h⟩ := ih
    exact ⟨node, by simp [items, List.getLast?_cons, h]⟩
  | front op p span operand ih =>
    obtain ⟨node, h⟩ := ih
    exact ⟨node, by simp [items, h]⟩

theorem items_length_pos (t : Fold) : 0 < t.items.length := by
  obtain ⟨node, h⟩ := t.items_getLast?
  exact List.length_pos_of_mem (List.mem_of_getLast? h)

theorem items_of_leads {t : Fold} (h : t.leads = true) :
    ∃ op p span rest, t.items = .operator op p span :: rest := by
  rcases t with node | ⟨op, p, span, left, right⟩ | ⟨op, p, span, operand⟩
  · cases h
  · cases h
  · cases op with
    | compound op target var place => cases h
    | unary op => exact ⟨.unary op, p, span, _, rfl⟩
    | ret => exact ⟨.ret, p, span, _, rfl⟩

theorem eq_leaf {t : Fold} (h : t.precedences = []) : ∃ node, t = leaf node := by
  cases t with
  | leaf node => exact ⟨node, rfl⟩
  | between op p span left right => simp [precedences] at h
  | front op p span operand => simp [precedences] at h

/-! ## Taking an operator whose operands are finished -/

/-- One operator with finished operands becomes a finished operand. -/
inductive Step : Fold → Fold → Prop
  | between {op p span a b} :
    Step (between op p span (leaf a) (leaf b)) (leaf (.binary op a b
      ((a.span.merge b.span).merge span)))
  | left {op p span l l' r} : Step l l' → Step (between op p span l r) (between op p span l' r)
  | right {op p span l r r'} : Step r r' → Step (between op p span l r) (between op p span l r')
  | front {op p span a} : Step (front op p span (leaf a)) (leaf (op.node span a))
  | operand {op p span e e'} : Step e e' → Step (front op p span e) (front op p span e')

variable {t t' : Fold}

theorem Step.node_eq (h : Step t t') : t'.node = t.node := by
  induction h with
  | between => rfl
  | left _ ih => simp [Fold.node, ih]
  | right _ ih => simp [Fold.node, ih]
  | front => rfl
  | operand _ ih => simp [Fold.node, ih]

theorem Step.precedences_subset (h : Step t t') : t'.precedences ⊆ t.precedences := by
  induction h with
  | between => simp [precedences]
  | left _ ih => intro q hq; grind [precedences]
  | right _ ih => intro q hq; grind [precedences]
  | front => simp [precedences]
  | operand _ ih => intro q hq; grind [precedences]

theorem Step.length_lt (h : Step t t') : t'.precedences.length < t.precedences.length := by
  induction h with
  | between => simp [precedences]
  | left _ ih => simpa [precedences] using ih
  | right _ ih => simpa [precedences] using ih
  | front => simp [precedences]
  | operand _ ih => simpa [precedences] using ih

theorem Step.under {p : Nat} (h : Step t t') (ht : t.Under p) : t'.Under p := by
  rcases ht with hleads | hall
  · cases h with
    | front => exact Or.inr (by simp [precedences])
    | operand _ => exact Or.inl hleads
    | _ => cases hleads
  · exact Or.inr fun q hq => hall q (h.precedences_subset hq)

theorem Step.canonical (h : Step t t') (ht : t.Canonical) : t'.Canonical := by
  induction h with
  | between => trivial
  | left hstep ih =>
    obtain ⟨hl, hr, hle, hunder⟩ := ht
    exact ⟨ih hl, hr, fun q hq => hle q (hstep.precedences_subset hq), hunder⟩
  | right hstep ih =>
    obtain ⟨hl, hr, hle, hunder⟩ := ht
    exact ⟨hl, ih hr, hle, hstep.under hunder⟩
  | front => trivial
  | operand hstep ih => exact ⟨ih ht.1, hstep.under ht.2⟩

/-! ## The operator that is taken -/

/-- Every expression with operators has one that is ready. -/
theorem exists_ready (t : Fold) :
    t.precedences = [] ∨ ∃ i p, Run.Ready t.items i p ∧ p ∈ t.precedences := by
  induction t with
  | leaf node => exact Or.inl rfl
  | between op p span left right ihl ihr =>
    right
    obtain ⟨last, hlast⟩ := left.items_getLast?
    rcases ihl with hl | ⟨i, q, hready, hq⟩
    · rcases ihr with hr | ⟨i, q, hready, hq⟩
      · obtain ⟨a, rfl⟩ := eq_leaf hl
        obtain ⟨b, rfl⟩ := eq_leaf hr
        exact ⟨0, p, Run.ready_zero rfl, by simp [precedences]⟩
      · have hready := (hready.append_left [.operator (.binary op) p span]).append_left left.items
        exact ⟨_, q, hready, by simp [precedences, hq]⟩
    · exact ⟨i, q, hready.append_right hlast _, by simp [precedences, hq]⟩
  | front op p span operand ih =>
    right
    rcases ih with he | ⟨i, q, hready, hq⟩
    · obtain ⟨a, rfl⟩ := eq_leaf he
      exact ⟨0, p, Run.ready_zero (op.headRedex_items p span a []), by simp [precedences]⟩
    · exact ⟨_, q, hready.append_left (op.items p span), by simp [precedences, hq]⟩

/-- An operator that is ready in front of an expression makes a finished operand of it, or the
expression holds a ready operator that binds tighter. -/
theorem Under.leaf_or_ready {p : Nat} {a : Node} {rest : Run} (h : t.Under p)
    (hitems : t.items = .operand a :: rest) :
    t = leaf a ∧ rest = [] ∨ ∃ i q, Run.Ready t.items i q ∧ p < q := by
  rcases h with hleads | hall
  · obtain ⟨op, q, span, rest', hop⟩ := items_of_leads hleads
    rw [hop] at hitems
    cases hitems
  · rcases t.exists_ready with hnone | ⟨i, q, hready, hq⟩
    · obtain ⟨b, rfl⟩ := eq_leaf hnone
      obtain ⟨rfl, rfl⟩ : b = a ∧ [] = rest := by simpa [items] using hitems
      exact Or.inl ⟨rfl, rfl⟩
    · exact Or.inr ⟨i, q, hready, hall q hq⟩

/-- A ready operator has finished operands in the tree, or another ready operator comes before
it: one that binds tighter, or one that binds as tightly and stands further left. -/
theorem step_or_better (ht : t.Canonical) {i p : Nat} {out : Except BuildError Node} {after : Run}
    (h : Run.headRedex (t.items.drop i) = some (p, out, after)) :
    (∃ t' node, Step t t' ∧ out = .ok node ∧ t'.items = t.items.take i ++ .operand node :: after) ∨
      ∃ j q, Run.Ready t.items j q ∧ (p < q ∨ p ≤ q ∧ j < i) := by
  induction t generalizing i p out after with
  | leaf node => rcases i with _ | i <;> simp [items, Run.headRedex] at h
  | between op p₀ span left right ihl ihr =>
    obtain ⟨hl, hr, hle, hunder⟩ := ht
    obtain ⟨last, hlast⟩ := left.items_getLast?
    rcases Nat.lt_trichotomy (i + 1) left.items.length with hi | hi | hi
    · -- The operator stands in the left operand.
      rw [items, Run.headRedex_drop_append hlast hi, Option.map_eq_some_iff] at h
      obtain ⟨⟨q, node, after'⟩, hleft, heq⟩ := h
      obtain ⟨rfl, rfl, rfl⟩ : q = p ∧ node = out ∧ after' ++ _ = after := by simpa using heq
      rcases ihl hl hleft with ⟨l', node, hstep, rfl, hitems⟩ | ⟨j, q, hready, hbetter⟩
      · refine Or.inl ⟨_, node, .left hstep, rfl, ?_⟩
        rw [items, items, hitems, List.take_append_of_le_length (by omega)]
        simp
      · exact Or.inr ⟨j, q, hready.append_right hlast _, hbetter⟩
    · -- It is the operator between the operands.
      have hdrop : left.items.drop i = [.operand last] := by
        obtain ⟨init, hinit⟩ := List.getLast?_eq_some_iff.mp hlast
        rw [hinit] at hi ⊢
        simp only [List.length_append, List.length_singleton, Nat.add_right_cancel_iff] at hi
        simp [hi]
      rw [items, List.drop_append_of_le_length (by omega), hdrop] at h
      obtain ⟨rfl, b, hitems, rfl⟩ := Run.headRedex_between h
      rcases hunder.leaf_or_ready hitems with ⟨rfl, rfl⟩ | ⟨j, q, hready, hlt⟩
      · rcases left.exists_ready with hnone | ⟨j, q, hready, hq⟩
        · obtain ⟨a, rfl⟩ := eq_leaf hnone
          obtain rfl : a = last := by simpa [items] using hlast
          obtain rfl : i = 0 := by simpa [items] using hi
          exact Or.inl ⟨_, _, .between, rfl, rfl⟩
        · have hj := hready.succ_lt_length hlast
          exact Or.inr ⟨j, q, hready.append_right hlast _, Or.inr ⟨hle q hq, by omega⟩⟩
      · have hready := (hready.append_left [.operator (.binary op) p₀ span]).append_left left.items
        exact Or.inr ⟨_, q, hready, Or.inl hlt⟩
    · -- It stands in the right operand.
      obtain ⟨k, rfl⟩ : ∃ k, i = left.items.length + k := ⟨i - left.items.length, by omega⟩
      rcases k with _ | k
      · rw [items, Nat.add_zero, List.drop_left] at h
        cases h
      · rw [items, List.drop_length_add_append, List.drop_succ_cons] at h
        rcases ihr hr h with ⟨r', node, hstep, rfl, hitems⟩ | ⟨j, q, hready, hbetter⟩
        · refine Or.inl ⟨_, node, .right hstep, rfl, ?_⟩
          rw [items, items, hitems, List.take_length_add_append]
          simp
        · have hready :=
            (hready.append_left [.operator (.binary op) p₀ span]).append_left left.items
          refine Or.inr ⟨_, q, hready, ?_⟩
          simp only [List.length_singleton]
          omega
  | front op p₀ span operand ih =>
    obtain ⟨he, hunder⟩ := ht
    rcases Nat.lt_or_ge i (op.items p₀ span).length with hi | hi
    · -- It is the operator before the operand.
      have hne : operand.items ≠ [] := List.ne_nil_of_length_pos operand.items_length_pos
      obtain ⟨rfl, rfl, a, hitems, rfl⟩ := Front.of_headRedex_items hne hi h
      rcases hunder.leaf_or_ready hitems with ⟨rfl, rfl⟩ | ⟨j, q, hready, hlt⟩
      · exact Or.inl ⟨_, _, .front, rfl, rfl⟩
      · exact Or.inr ⟨_, q, hready.append_left (op.items p₀ span), Or.inl hlt⟩
    · -- It stands in the operand.
      obtain ⟨k, rfl⟩ : ∃ k, i = (op.items p₀ span).length + k :=
        ⟨i - (op.items p₀ span).length, by omega⟩
      rw [items, List.drop_length_add_append] at h
      rcases ih he h with ⟨e', node, hstep, rfl, hitems⟩ | ⟨j, q, hready, hbetter⟩
      · refine Or.inl ⟨_, node, .operand hstep, rfl, ?_⟩
        rw [items, items, hitems, List.take_length_add_append]
        simp
      · exact Or.inr ⟨_, q, hready.append_left (op.items p₀ span), by omega⟩

/-- Folding takes an operator whose operands are finished in the tree. -/
theorem reduce_items (ht : t.Canonical) (hne : t.precedences ≠ []) :
    ∃ t' p, Step t t' ∧ Run.reduce t.items = some (p, .ok t'.items) := by
  rcases hreduce : Run.reduce t.items with _ | ⟨p, out⟩
  · rcases t.exists_ready with hnone | ⟨i, p, hready, -⟩
    · exact absurd hnone hne
    · exact absurd hready (Run.reduce_eq_none hreduce)
  · obtain ⟨i, node, after, hhead, rfl, hbest⟩ := Run.reduce_eq_some hreduce
    rcases step_or_better ht hhead with ⟨t', n, hstep, rfl, hitems⟩ | ⟨j, q, hready, hbetter⟩
    · exact ⟨t', p, hstep, by rw [hitems]; rfl⟩
    · have := hbest j q hready
      omega

/-- **Folding the run of a canonical fold gives its node.** -/
theorem assemble_items (ht : t.Canonical) : Run.assemble t.items = .ok t.node := by
  induction hn : t.precedences.length using Nat.strongRecOn generalizing t with
  | _ n ih =>
    by_cases hne : t.precedences = []
    · obtain ⟨node, rfl⟩ := eq_leaf hne
      rw [items, Run.assemble]
      rfl
    · obtain ⟨t', p, hstep, hreduce⟩ := reduce_items ht hne
      have hlt : t'.precedences.length < n := hn ▸ hstep.length_lt
      rw [Run.assemble_of_reduce hreduce, ih _ hlt (hstep.canonical ht) rfl, hstep.node_eq]

end Fold

end SlotScript
