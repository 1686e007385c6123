import SlotScript.Proofs.Tree.Steps

/-!
# Welding, item by item

The items of a statement are welded from the last one back, and all that welding knows of the items it
has passed is what they leave: the nodes that wait, and an `else` branch that looks for its `if`.

**Theorem (`weldFrom_cons_eq_ok`).** Where welding goes through, every item has been joined with what
waited in one of a few ways (`Joins`).

**Theorem (`weldFrom_append`).** Items that weld to one node may be welded first, whatever stands below
them.

**Theorem (`weldFrom_whole`).** If they weld to a statement that starts with no head, and no `=` has made
it, then the statement is all they were.
-/

namespace SlotScript

/-- Whether a construct or a named function makes the statement, with its head before the rest. -/
def Node.isHeaded : Node → Bool
  | .branch .. | .whileLoop .. | .forLoop .. | .define _ (some _) .. => true
  | _ => false

/-- Whether the statement is an assignment, but no compound one. -/
def Node.isAssignment : Node → Bool
  | .assign _ _ _ none _ _ => true
  | _ => false

/-- Whether the item is an assignment that waits for its value. -/
def Item.isAssign : Item → Bool
  | .assign .. => true
  | _ => false

namespace Line

/-- What an item is joined to, the nodes that wait and an `else` branch, and what the two leave. -/
inductive Joins : (waiting : List Node) → (otherwise : Option (Node × Span)) → Item → List Node →
    Option (Node × Span) → Prop
  | node (node : Node) (waiting : List Node) (otherwise : Option (Node × Span)) :
    Joins waiting otherwise (.node node) (node :: waiting) otherwise
  | otherwise (branch : Node) (span : Span) :
    Joins [branch] none (.otherwise span) [] (some (branch, span))
  | assign (target : String) (decl : DeclKind) (span : Span) (value : Node) :
    Joins [value] none (.assign target decl span)
      [.assign target .unresolved decl none value (span.merge value.span)] none
  | branch (cond yes : Node) (span : Span) (otherwise : Option (Node × Span)) :
    Joins [yes] otherwise (.branch cond span) [.branch cond yes (otherwise.map (·.1)) .blank .blank
      (span.merge ((otherwise.map (·.1)).getD yes).span)] none
  | whileLoop (cond body : Node) (span : Span) :
    Joins [body] none (.whileLoop cond span)
      [.whileLoop cond body .blank .blank (span.merge body.span)] none
  | forLoop (init cond step : Option Node) (body : Node) (span : Span) :
    Joins [body] none (.forLoop init cond step span)
      [.forLoop init cond step body .blank .blank (span.merge body.span)] none
  | define {head : FunctionHead} {body node : Node}
    (h : head.complete (some .unresolved) body = .ok node) :
    Joins [body] none (.define head) [node] none

variable {waiting waiting' : List Node} {otherwise otherwise' : Option (Node × Span)}
  {item : Item} {items : List Item}

/-- Welding goes on with what the last item leaves. -/
theorem weldFrom_cons_eq_ok {line : Option Node}
    (h : weldFrom waiting otherwise (item :: items) = .ok line) :
    ∃ waiting' otherwise', Joins waiting otherwise item waiting' otherwise' ∧
      weldFrom waiting' otherwise' items = .ok line := by
  -- An `else` branch that looks for its `if` passes no item but an expression.
  have hnone : item.admitsElse = false → otherwise = none := by
    intro hadmits
    rcases otherwise with _ | pending
    · rfl
    · simp [weldFrom, hadmits] at h
  cases item with
  | node node =>
    refine ⟨_, _, .node node waiting otherwise, ?_⟩
    cases otherwise <;> exact h
  | branch cond span =>
    obtain ⟨yes, hone, hrest⟩ : ∃ yes, takeOne .ifBody span waiting = .ok yes ∧ weldFrom
        [.branch cond yes (otherwise.map (·.1)) .blank .blank
          (span.merge ((otherwise.map (·.1)).getD yes).span)] none items = .ok line := by
      cases otherwise <;> exact bind_eq_ok_iff.mp h
    obtain rfl := takeOne_eq_ok hone
    exact ⟨_, _, .branch cond yes span otherwise, hrest⟩
  | otherwise span =>
    obtain rfl := hnone rfl
    obtain ⟨branch, hone, hrest⟩ := bind_eq_ok_iff.mp h
    obtain rfl := takeOne_eq_ok hone
    exact ⟨_, _, .otherwise branch span, hrest⟩
  | assign target decl span =>
    obtain rfl := hnone rfl
    obtain ⟨value, hone, hrest⟩ := bind_eq_ok_iff.mp h
    obtain rfl := takeOne_eq_ok hone
    exact ⟨_, _, .assign target decl span value, hrest⟩
  | whileLoop cond span =>
    obtain rfl := hnone rfl
    obtain ⟨body, hone, hrest⟩ := bind_eq_ok_iff.mp h
    obtain rfl := takeOne_eq_ok hone
    exact ⟨_, _, .whileLoop cond body span, hrest⟩
  | forLoop init cond step span =>
    obtain rfl := hnone rfl
    obtain ⟨body, hone, hrest⟩ := bind_eq_ok_iff.mp h
    obtain rfl := takeOne_eq_ok hone
    exact ⟨_, _, .forLoop init cond step body span, hrest⟩
  | define head =>
    obtain rfl := hnone rfl
    obtain ⟨body, hone, hrest⟩ := bind_eq_ok_iff.mp h
    obtain rfl := takeOne_eq_ok hone
    obtain ⟨node, hnode, hrest⟩ := bind_eq_ok_iff.mp hrest
    exact ⟨_, _, .define hnode, hrest⟩

/-- An item that can be joined is joined before whatever stands below it. -/
theorem Joins.weldFrom_eq (h : Joins waiting otherwise item waiting' otherwise')
    (more : List Item) :
    weldFrom waiting otherwise (item :: more) = weldFrom waiting' otherwise' more := by
  cases h with
  | node => cases otherwise <;> rfl
  | branch => cases otherwise <;> rfl
  | define hnode =>
    rw [weldFrom]
    · simp only [takeOne, ok_bind, hnode]
    · simp
  | _ => rfl

/-- What an item makes of the one node that waits is a statement that has a head or is assigned. -/
theorem Joins.made (h : Joins waiting otherwise item waiting' otherwise') :
    (∃ node, item = .node node ∧ waiting' = node :: waiting ∧ otherwise' = otherwise) ∨
      otherwise'.isSome = true ∨
      ∃ node, waiting' = [node] ∧ otherwise' = none ∧
        (node.isHeaded = true ∨ node.isAssignment = true ∧ item.isAssign = true) := by
  cases h with
  | node node => exact .inl ⟨node, rfl, rfl, rfl⟩
  | otherwise => exact .inr (.inl rfl)
  | assign => exact .inr (.inr ⟨_, rfl, rfl, .inr ⟨rfl, rfl⟩⟩)
  | branch | whileLoop | forLoop => exact .inr (.inr ⟨_, rfl, rfl, .inl rfl⟩)
  | @define head body node hnode =>
    refine .inr (.inr ⟨node, rfl, rfl, .inl ?_⟩)
    cases body <;> cases hnode
    rfl

/-- Without items, what waits is the line. -/
theorem weldFrom_nil_eq_ok {line : Option Node} (h : weldFrom waiting otherwise [] = .ok line) :
    otherwise = none ∧ waiting = line.toList := by
  rcases otherwise with _ | pending
  · rcases waiting with _ | ⟨first, _ | ⟨second, rest⟩⟩
    · cases h
      exact ⟨rfl, rfl⟩
    · cases h
      exact ⟨rfl, rfl⟩
    · cases h
  · cases h

/-- **Items that weld to one node may be welded first.** -/
theorem weldFrom_append {node : Node} (h : weldFrom waiting otherwise items = .ok (some node))
    (more : List Item) : weldFrom waiting otherwise (items ++ more) = weldFrom [node] none more := by
  induction items generalizing waiting otherwise with
  | nil =>
    obtain ⟨rfl, rfl⟩ := weldFrom_nil_eq_ok h
    rfl
  | cons item items ih =>
    obtain ⟨waiting', otherwise', hjoins, h⟩ := weldFrom_cons_eq_ok h
    rw [List.cons_append, hjoins.weldFrom_eq]
    exact ih h

/-- Only no items weld to nothing. -/
theorem weldFrom_eq_none (h : weldFrom waiting otherwise items = .ok none) :
    otherwise = none ∧ waiting = [] ∧ items = [] := by
  induction items generalizing waiting otherwise with
  | nil =>
    obtain ⟨hotherwise, hwaiting⟩ := weldFrom_nil_eq_ok h
    exact ⟨hotherwise, hwaiting, rfl⟩
  | cons item items ih =>
    obtain ⟨waiting', otherwise', hjoins, h⟩ := weldFrom_cons_eq_ok h
    obtain ⟨rfl, rfl, -⟩ := ih h
    cases hjoins

/-- A statement that no head and no `=` makes is its only item. -/
theorem weldFrom_whole {node : Node} (h : weldFrom waiting otherwise items = .ok (some node))
    (hheaded : node.isHeaded = false)
    (hassign : node.isAssignment = true → ∀ item ∈ items, item.isAssign = false) :
    otherwise = none ∧ (waiting = [node] ∧ items = [] ∨ waiting = [] ∧ items = [.node node]) := by
  induction items generalizing waiting otherwise with
  | nil =>
    obtain ⟨hotherwise, hwaiting⟩ := weldFrom_nil_eq_ok h
    exact ⟨hotherwise, .inl ⟨hwaiting, rfl⟩⟩
  | cons item items ih =>
    obtain ⟨waiting', otherwise', hjoins, h⟩ := weldFrom_cons_eq_ok h
    obtain ⟨rfl, hwaiting⟩ :=
      ih h fun hnode item hitem => hassign hnode item (List.mem_cons_of_mem _ hitem)
    -- What the item leaves is the statement, so that it is an expression or has made the statement.
    rcases hjoins.made with ⟨first, rfl, rfl, rfl⟩ | hsome | ⟨made, rfl, -, hmade⟩
    · obtain ⟨hwaiting, rfl⟩ | ⟨hwaiting, -⟩ := hwaiting
      · obtain ⟨rfl, rfl⟩ := List.cons.inj hwaiting
        exact ⟨rfl, .inr ⟨rfl, rfl⟩⟩
      · cases hwaiting
    · cases hsome
    · obtain ⟨hwaiting, -⟩ | ⟨hwaiting, -⟩ := hwaiting
      · obtain ⟨rfl, -⟩ := List.cons.inj hwaiting
        rcases hmade with hmade | ⟨hmade, hitem⟩
        · cases hheaded.symm.trans hmade
        · cases (hassign hmade item List.mem_cons_self).symm.trans hitem
      · cases hwaiting

end Line

end SlotScript
