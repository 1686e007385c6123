import SlotScript.Proofs.Flat.Fold

/-!
# Statements and levels in flat storage

**Theorem (`weldFrom_refines`).** Joining the items of a statement makes the tree that joining the
items of trees makes.

From it follows what ending an expression, a statement and a part does to a level. In a frame the
loose operands and operators stand on top of the finished items, where a level keeps two lists. So a
statement is joined only when nothing is loose.
-/

namespace SlotScript.Flat

/-! ## Items -/

/-- A link that may be missing holds the tree under it. -/
inductive HeldOption (a : Arena) : Holding → Option Nat → Option Node → Prop
  | none : HeldOption a 0 none none
  | some {h : Holding} {link : Nat} {node : Node} : a.Held h link node →
    HeldOption a h (some link) (some node)

theorem HeldOption.grows {a a' : Arena} {h : Holding} {link : Option Nat} {node : Option Node}
    (hlink : HeldOption a h link node) (hg : a.Grows a') : HeldOption a' h link node := by
  cases hlink with
  | none => exact .none
  | some hlink => exact .some (hlink.grows hg)

theorem HeldOption.optional? {a : Arena} {h : Holding} {link : Option Nat} {node : Option Node}
    (hlink : HeldOption a h link node) : Flat.optional? a.tree? link = Option.some node ∧
      h.1 = ↑(link.toList.flatMap a.cells) := by
  cases hlink with
  | none => exact ⟨rfl, rfl⟩
  | some hlink => simp [Flat.optional?, hlink.1, hlink.2]

/-- An item holds its trees, and unless it is one itself, it is due a node. -/
inductive HeldItem (a : Arena) : Holding → Item → SlotScript.Item → Prop
  | node {h : Holding} {link : Nat} {node : Node} : a.Held h link node →
    HeldItem a h (.node link) (.node node)
  | otherwise (span : Span) : HeldItem a 0 (.otherwise span) (.otherwise span)
  | assign (target : String) (decl : DeclKind) (span : Span) :
    HeldItem a .due (.assign target decl span) (.assign target decl span)
  | branch {h : Holding} {cond : Nat} {node : Node} (span : Span) : a.Held h cond node →
    HeldItem a (.due + h) (.branch cond span) (.branch node span)
  | whileLoop {h : Holding} {cond : Nat} {node : Node} (span : Span) : a.Held h cond node →
    HeldItem a (.due + h) (.whileLoop cond span) (.whileLoop node span)
  | forLoop {h₁ h₂ h₃ : Holding} {init cond step : Option Nat} {init' cond' step' : Option Node}
    (span : Span) : HeldOption a h₁ init init' → HeldOption a h₂ cond cond' →
    HeldOption a h₃ step step' →
    HeldItem a (.due + (h₁ + h₂ + h₃)) (.forLoop init cond step span)
      (.forLoop init' cond' step' span)
  | define {h : Holding} {range : Range} (head : FunctionHead) : a.HeldParams h range head.params →
    HeldItem a (.due + h) (.define head.name false range head.span) (.define head)

theorem HeldItem.grows {a a' : Arena} {h : Holding} {item : Item} {item' : SlotScript.Item}
    (hitem : HeldItem a h item item') (hg : a.Grows a') : HeldItem a' h item item' := by
  cases hitem with
  | node hlink => exact .node (hlink.grows hg)
  | otherwise span => exact .otherwise span
  | assign target decl span => exact .assign target decl span
  | branch span hcond => exact .branch span (hcond.grows hg)
  | whileLoop span hcond => exact .whileLoop span (hcond.grows hg)
  | forLoop span hinit hcond hstep =>
    exact .forLoop span (hinit.grows hg) (hcond.grows hg) (hstep.grows hg)
  | define head hparams => exact .define head (hparams.grows hg)

theorem HeldItem.isRun_eq_false {a : Arena} {h : Holding} {item : Item} {item' : SlotScript.Item}
    (hitem : HeldItem a h item item') : item.isRun = false := by
  cases hitem <;> rfl

/-! ## Joining -/

/-- An `else` branch holds its tree. -/
inductive HeldElse (a : Arena) : Holding → Option (Nat × Span) → Option (Node × Span) → Prop
  | none : HeldElse a 0 none none
  | some {h : Holding} {link : Nat} {node : Node} (span : Span) : a.Held h link node →
    HeldElse a h (some (link, span)) (some (node, span))

section Joining

variable {a : Arena} {tokens : Nat} {h rest : Holding}

theorem takeOne_refines (missing : Missing) (span : Span) {waiting : List Nat}
    {waiting' : List Node} (hwaiting : Each a.Held h waiting waiting') :
    Refines (a.Held h) (takeOne a missing span waiting) (Line.takeOne missing span waiting') := by
  rcases hwaiting with _ | ⟨hfirst, _ | ⟨hsecond, _⟩⟩
  · exact .fault _
  · rw [add_zero]
    exact .ok hfirst
  · rw [takeOne, hsecond.spanOf]
    exact .fault _

theorem completeFunction_refines (htokens : tokens < tokenLimit) {hb hp : Holding} {body : Nat}
    {node : Node} {range : Range} (head : FunctionHead) (anonymous : Bool)
    (hparams : a.HeldParams hp range head.params) (hbody : a.Held hb body node)
    (hc : a.Covers tokens (Holding.due + (hp + hb) + rest)) :
    Refines (Yields a tokens rest Arena.Held)
      (completeFunction a head.name anonymous range body head.span)
      (head.complete (if anonymous then none else some .unresolved) node) := by
  obtain ⟨cell, hentry, hlook⟩ := hbody.entry
  rw [completeFunction, hentry]
  rcases hlook with ⟨name, var, span, rfl, rfl⟩ | ⟨stmts, nodes, span, rfl, rfl⟩ |
    ⟨target, var, j, value, span, rfl, hj, rfl⟩ | ⟨hcell, hnode⟩
  · exact .fault _
  · obtain ⟨formals, hformals, heach⟩ := hparams
    obtain ⟨hparams, rfl⟩ := Arena.each_heldFormal heach
    have hlinks : ∀ binding, Cell.links? a (.define head.name binding range body .blank) =
        some (formals.filterMap Formal.default ++ [body]) := by simp [Cell.links?, hformals]
    refine Arena.alloc_refines htokens (hlinks _) ?_ ?_ hc
    · simp [Entry.node?, hformals, hparams, hbody.1]
    · simp [hbody.2]
  · exact .fault _
  · have hfault : ∀ binding, head.complete binding node =
        .error { fault := .missingBody, span := node.span } := by
      intro binding
      unfold FunctionHead.complete
      split
      · cases hnode
      · rfl
    rw [hfault, ok_bind]
    cases cell
    case block => cases hcell
    all_goals exact .fault _

/-- Whether an item is due a node. -/
def Item.isDue : Item → Bool
  | .run _ | .node _ | .otherwise _ => false
  | _ => true

/-- Whether an item of trees is due a node. -/
def isDue : SlotScript.Item → Bool
  | .node _ | .otherwise _ => false
  | _ => true

/-- The tree that an item makes of the trees to its right. -/
def joined (waiting : List Node) (otherwise : Option (Node × Span)) :
    SlotScript.Item → Except BuildError Node
  | .node node => .ok node
  | .otherwise span => Line.takeOne .elseBranch span waiting
  | .assign target decl span => do
    let value ← Line.takeOne .value span waiting
    return .assign target .unresolved decl none value (span.merge value.span)
  | .branch cond span => do
    let yes ← Line.takeOne .ifBody span waiting
    let no := otherwise.map Prod.fst
    return .branch cond yes no .blank .blank (span.merge (no.getD yes).span)
  | .whileLoop cond span => do
    let body ← Line.takeOne .loopBody span waiting
    return .whileLoop cond body .blank .blank (span.merge body.span)
  | .forLoop init cond step span => do
    let body ← Line.takeOne .loopBody span waiting
    return .forLoop init cond step body .blank .blank (span.merge body.span)
  | .define head => do
    let body ← Line.takeOne .functionBody head.span waiting
    head.complete (some .unresolved) body

/-- An item that is due a node makes it of what waits to its right. -/
theorem join_refines (htokens : tokens < tokenLimit) {hw ho : Holding} {waiting : List Nat}
    {waiting' : List Node} {otherwise : Option (Nat × Span)} {otherwise' : Option (Node × Span)}
    {item : Item} {item' : SlotScript.Item} (hitem : HeldItem a h item item')
    (hdue : item.isDue = true) (hwaiting : Each a.Held hw waiting waiting')
    (helse : HeldElse a ho otherwise otherwise') (hc : a.Covers tokens (hw + ho + h + rest)) :
    Refines (Yields a tokens rest Arena.Held) (item.join a waiting otherwise)
      (joined waiting' otherwise' item') := by
  cases hitem with
  | node hlink => cases hdue
  | otherwise span => cases hdue
  | assign target decl span =>
    refine (takeOne_refines .value span hwaiting).bind fun value node hvalue => ?_
    rw [hvalue.spanOf, ok_bind]
    refine Arena.alloc_refines htokens rfl ?_ ?_ ((hc.of_eq (by abel) :
      a.Covers tokens (ho + (Holding.due + hw + rest))).forget)
    · simp [Entry.node?, hvalue.1]
    · simp [hvalue.2]
  | @branch h₁ cond _ span hcond =>
    refine (takeOne_refines .ifBody span hwaiting).bind fun yes node hyes => ?_
    cases helse with
    | none =>
      simp only [Option.map_none, Option.getD_none, hyes.spanOf, ok_bind]
      refine Arena.alloc_refines htokens rfl ?_ ?_ (hc.of_eq (by abel) :
        a.Covers tokens (Holding.due + (h₁ + hw) + rest))
      · simp [Entry.node?, hcond.1, hyes.1, optional?]
      · simp [hcond.2, hyes.2]
    | some _ hno =>
      simp only [Option.map_some, Option.getD_some, hno.spanOf, ok_bind]
      refine Arena.alloc_refines htokens rfl ?_ ?_ (hc.of_eq (by abel) :
        a.Covers tokens (Holding.due + (h₁ + (hw + ho)) + rest))
      · simp [Entry.node?, hcond.1, hyes.1, hno.1, optional?]
      · simp [hcond.2, hyes.2, hno.2]
  | @whileLoop h₁ cond _ span hcond =>
    refine (takeOne_refines .loopBody span hwaiting).bind fun body node hbody => ?_
    rw [hbody.spanOf, ok_bind]
    refine Arena.alloc_refines htokens rfl ?_ ?_ ((hc.of_eq (by abel) :
      a.Covers tokens (ho + (Holding.due + (h₁ + hw) + rest))).forget)
    · simp [Entry.node?, hcond.1, hbody.1]
    · simp [hcond.2, hbody.2]
  | @forLoop h₁ h₂ h₃ _ _ _ _ _ _ span hinit hcond hstep =>
    refine (takeOne_refines .loopBody span hwaiting).bind fun body node hbody => ?_
    rw [hbody.spanOf, ok_bind]
    refine Arena.alloc_refines htokens rfl ?_ ?_ ((hc.of_eq (by abel) :
      a.Covers tokens (ho + (Holding.due + (h₁ + h₂ + h₃ + hw) + rest))).forget)
    · simp [Entry.node?, hinit.optional?.1, hcond.optional?.1, hstep.optional?.1, hbody.1]
    · simp [hinit.optional?.2, hcond.optional?.2, hstep.optional?.2, hbody.2]
  | @define h₁ _ head hparams =>
    refine (takeOne_refines .functionBody head.span hwaiting).bind fun body node hbody => ?_
    exact completeFunction_refines htokens head false hparams hbody ((hc.of_eq (by abel) :
      a.Covers tokens (ho + (Holding.due + (h₁ + hw) + rest))).forget)

/-- Joining goes on with the node that an item makes. -/
theorem weldFrom_cons {waiting : List Nat} {otherwise : Option (Nat × Span)} {item : Item}
    (hdue : item.isDue = true) (helse : item.admitsElse = true ∨ otherwise = none)
    (items : List Item) :
    weldFrom waiting otherwise (item :: items) a =
      item.join a waiting otherwise >>= fun out => weldFrom [out.1] none items out.2 := by
  cases item
  case run item => cases hdue
  case node link => cases hdue
  case otherwise span => cases hdue
  case branch cond span => cases otherwise <;> rfl
  all_goals
    obtain rfl : otherwise = none := helse.resolve_left Bool.false_ne_true
    rfl

theorem weldFrom_cons_joined {waiting : List Node} {otherwise : Option (Node × Span)}
    {item : SlotScript.Item} (hdue : isDue item = true)
    (helse : item.admitsElse = true ∨ otherwise = none) (items : List SlotScript.Item) :
    Line.weldFrom waiting otherwise (item :: items) =
      joined waiting otherwise item >>= fun node => Line.weldFrom [node] none items := by
  cases item
  case node node => cases hdue
  case otherwise span => cases hdue
  case branch cond span =>
    rw [joined, bind_assoc]
    cases otherwise <;> rfl
  all_goals
    obtain rfl : otherwise = none := helse.resolve_left Bool.false_ne_true
    rw [joined, bind_assoc]
    rfl

theorem weldFrom_refines (htokens : tokens < tokenLimit) {hw ho hi : Holding} {waiting : List Nat}
    {waiting' : List Node} {otherwise : Option (Nat × Span)} {otherwise' : Option (Node × Span)}
    {items : List Item} {items' : List SlotScript.Item} (hitems : Each (HeldItem a) hi items items')
    (hwaiting : Each a.Held hw waiting waiting') (helse : HeldElse a ho otherwise otherwise')
    (hc : a.Covers tokens (hw + ho + hi + rest)) :
    Refines (Yields a tokens rest HeldOption) (weldFrom waiting otherwise items a)
      (Line.weldFrom waiting' otherwise' items') := by
  induction items generalizing a hw ho hi waiting waiting' otherwise otherwise' items' with
  | nil =>
    cases hitems
    cases helse with
    | some span hlink => exact .fault _
    | none =>
      rcases hwaiting with _ | ⟨hfirst, _ | ⟨hsecond, _⟩⟩
      · exact .ok ⟨.refl a, 0, .none, hc.of_eq (by abel)⟩
      · exact .ok ⟨.refl a, _, .some hfirst, hc.of_eq (by abel)⟩
      · rw [weldFrom, hsecond.spanOf]
        exact .fault _
  | cons item items ih =>
    obtain ⟨h₁, h₂, item', items', rfl, rfl, hitem, htail⟩ := hitems.of_cons_left
    -- An item that makes a node leaves it waiting for the items before it.
    have hjoin : item.isDue = true → isDue item' = true →
        item.admitsElse = true ∨ otherwise = none →
        item'.admitsElse = true ∨ otherwise' = none →
        Refines (Yields a tokens rest HeldOption) (weldFrom waiting otherwise (item :: items) a)
          (Line.weldFrom waiting' otherwise' (item' :: items')) := by
      intro hdue hdue' hadmits hadmits'
      rw [weldFrom_cons hdue hadmits, weldFrom_cons_joined hdue' hadmits']
      refine (join_refines htokens hitem hdue hwaiting helse (hc.of_eq (by abel) :
        a.Covers tokens (hw + ho + h₁ + (h₂ + rest)))).bind ?_
      rintro ⟨link, a'⟩ node ⟨hg, h, hlink, hc'⟩
      exact (ih (htail.imp fun _ _ _ h => h.grows hg) (.single hlink) .none
        (hc'.of_eq (by abel))).imp fun _ _ h => h.trans hg
    cases hitem with
    | node hlink =>
      have hstep := ih htail (.cons hlink hwaiting) helse (hc.of_eq (by abel))
      cases helse with
      | none => exact hstep
      | some span helse => exact hstep
    | otherwise span =>
      cases helse with
      | some span helse => exact .fault _
      | none =>
        refine (takeOne_refines .elseBranch span hwaiting).bind fun link node hlink => ?_
        exact ih htail .nil (.some span hlink) (hc.of_eq (by abel))
    | branch span hcond => exact hjoin rfl rfl (.inl rfl) (.inl rfl)
    | _ =>
      cases helse with
      | some span helse => exact .fault _
      | none => exact hjoin rfl rfl (.inr rfl) (.inr rfl)

end Joining

/-! ## Levels -/

/-- A frame holds what its lists hold. The loose operands and operators are on top of the items. -/
inductive HeldLevel (a : Arena) : Holding → Frame → Level → Prop
  | mk {hr hi hl hp : Holding} {kind : FrameKind} {span : Span} {loose : Run} {run : SlotScript.Run}
    {items : List Item} {items' : List SlotScript.Item} {lines : List Nat} {lines' : List Node}
    {parts : List (Option Nat)} {parts' : List (Option Node)} {groups : List Span} :
    HeldRun a hr loose run → Each (HeldItem a) hi items items' → Each a.Held hl lines lines' →
    Each (HeldOption a) hp parts parts' →
    HeldLevel a (hr + hi + hl + hp) ⟨kind, span, loose.map .run ++ items, lines, parts, groups⟩
      ⟨run, items', lines', parts', groups⟩

section Levels

variable {a a' : Arena} {tokens : Nat} {h rest : Holding} {frame : Frame} {level : Level}

theorem HeldLevel.grows (hlevel : HeldLevel a h frame level) (hg : a.Grows a') :
    HeldLevel a' h frame level := by
  obtain ⟨hrun, hitems, hlines, hparts⟩ := hlevel
  exact ⟨hrun.imp fun _ _ _ h => h.grows hg, hitems.imp fun _ _ _ h => h.grows hg,
    hlines.imp fun _ _ _ h => h.grows hg, hparts.imp fun _ _ _ h => h.grows hg⟩

theorem HeldLevel.groups_eq (hlevel : HeldLevel a h frame level) : frame.groups = level.groups := by
  cases hlevel with
  | mk => rfl

/-- The frame is the same but for what it has collected. -/
def Frame.Same (frame frame' : Frame) : Prop := frame'.kind = frame.kind ∧ frame'.span = frame.span

/-- What a step makes of a frame. -/
def HeldFrame (frame : Frame) (a : Arena) (h : Holding) (frame' : Frame) (level : Level) : Prop :=
  HeldLevel a h frame' level ∧ frame.Same frame'

theorem takeWhile_loose (loose : Run) {items : List Item} {items' : List SlotScript.Item}
    (hitems : Each (HeldItem a) h items items') :
    (loose.map Item.run ++ items).takeWhile Item.isRun = loose.map Item.run ∧
      (loose.map Item.run ++ items).dropWhile Item.isRun = items := by
  have hloose : ∀ item ∈ loose.map Item.run, item.isRun = true := by
    intro item hitem
    obtain ⟨item, -, rfl⟩ := List.mem_map.1 hitem
    rfl
  rw [List.takeWhile_append_of_pos hloose, List.dropWhile_append_of_pos hloose]
  cases hitems with
  | nil => exact ⟨List.append_nil _, rfl⟩
  | cons hitem _ =>
    rw [List.takeWhile_cons, List.dropWhile_cons, hitem.isRun_eq_false]
    exact ⟨List.append_nil _, rfl⟩

theorem filterMap_loose (loose : Run) : (loose.map Item.run).filterMap Item.run? = loose := by
  rw [List.filterMap_map]
  exact List.filterMap_some

/-- What is loose on a level, from left to right. -/
theorem HeldLevel.looseRun (hlevel : HeldLevel a h frame level) :
    ∃ hr, HeldRun a hr frame.looseRun level.run.reverse := by
  obtain @⟨hr, hi, hl, hp, kind, span, loose, run, items, items', lines, lines', parts, parts', groups,
    hrun, hitems, hlines, hparts⟩ := hlevel
  rw [Frame.looseRun, (takeWhile_loose loose hitems).1, filterMap_loose]
  exact ⟨hr, hrun.reverse⟩

theorem closeExpression_refines (htokens : tokens < tokenLimit) (hlevel : HeldLevel a h frame level)
    (hc : a.Covers tokens (h + rest)) :
    Refines (Yields a tokens rest (HeldFrame frame)) (frame.closeExpression a)
      level.closeExpression := by
  obtain @⟨hr, hi, hl, hp, kind, span, loose, run, items, items', lines, lines', parts, parts', groups,
    hrun, hitems, hlines, hparts⟩ := hlevel
  cases loose with
  | nil =>
    cases hrun
    have hnone : ∀ frame : Frame, frame.items = items → frame.closeExpression a = .ok (frame, a) := by
      intro frame hframe
      rw [Frame.closeExpression, hframe]
      cases hitems with
      | nil => rfl
      | cons hitem _ => cases hitem <;> rfl
    rw [hnone _ rfl]
    exact .ok ⟨.refl a, _, ⟨⟨.nil, hitems, hlines, hparts⟩, rfl, rfl⟩, hc⟩
  | cons item loose =>
    have hloose := takeWhile_loose (item :: loose) hitems
    obtain ⟨_, _, item', run, rfl, rfl, _, _⟩ := hrun.of_cons_left
    refine Refines.bind (R := Yields a tokens (hi + hl + hp + rest) Arena.Held) ?_ ?_
    · rw [Frame.looseRun, hloose.1, filterMap_loose]
      exact Run.assemble_refines htokens hrun.reverse (hc.of_eq (by abel))
    · rintro ⟨link, a'⟩ node ⟨hg, h, hlink, hc'⟩
      rw [hloose.2]
      refine .ok ⟨hg, 0 + (h + hi) + hl + hp, ⟨⟨.nil, ?_, ?_, ?_⟩, rfl, rfl⟩, hc'.of_eq (by abel)⟩
      · exact .cons (.node hlink) (hitems.imp fun _ _ _ h => h.grows hg)
      · exact hlines.imp fun _ _ _ h => h.grows hg
      · exact hparts.imp fun _ _ _ h => h.grows hg

theorem closeLine_refines (htokens : tokens < tokenLimit) (hlevel : HeldLevel a h frame level)
    (hc : a.Covers tokens (h + rest)) :
    Refines (Yields a tokens rest (HeldFrame frame)) (frame.closeLine a) level.closeLine := by
  refine (closeExpression_refines htokens hlevel hc).attach.bind ?_
  rintro ⟨closed, a'⟩ closed' ⟨⟨hg, h, ⟨hclosed, hsame⟩, hc'⟩, hrun⟩
  have hrun := Level.closeExpression_run hrun
  obtain @⟨hr, hi, hl, hp, kind, span, loose, run, items, items', lines, lines', parts, parts', groups,
    hloose, hitems, hlines, hparts⟩ := hclosed
  obtain rfl : run = [] := hrun
  cases hloose
  refine Refines.bind (R := Yields a' tokens (hl + hp + rest) HeldOption) ?_ ?_
  · exact weldFrom_refines htokens hitems .nil .none (hc'.of_eq (by abel))
  · rintro ⟨line, a''⟩ line' ⟨hg', h, hline, hc''⟩
    refine .ok ⟨hg.trans hg', 0 + 0 + (h + hl) + hp, ⟨⟨.nil, .nil, ?_, ?_⟩, hsame⟩,
      hc''.of_eq (by abel)⟩
    · have hlines := hlines.imp fun _ _ _ h => h.grows hg'
      cases hline with
      | none => simpa using hlines
      | some hline => exact .cons hline hlines
    · exact hparts.imp fun _ _ _ h => h.grows hg'

theorem partOfLines_refines {lines : List Nat} {lines' : List Node}
    (hlines : Each a.Held h lines lines') :
    Refines (HeldOption a h) (Frame.partOfLines a lines) (Level.partOfLines lines') := by
  rcases hlines with _ | ⟨hfirst, _ | ⟨hsecond, _⟩⟩
  · exact .ok .none
  · rw [add_zero]
    exact .ok (.some hfirst)
  · rw [Frame.partOfLines, hsecond.spanOf]
    exact .fault _

theorem closePart_refines (htokens : tokens < tokenLimit) (hlevel : HeldLevel a h frame level)
    (hc : a.Covers tokens (h + rest)) :
    Refines (Yields a tokens rest (HeldFrame frame)) (frame.closePart a) level.closePart := by
  refine (closeLine_refines htokens hlevel hc).bind ?_
  rintro ⟨closed, a'⟩ closed' ⟨hg, h, ⟨hclosed, hsame⟩, hc'⟩
  obtain ⟨hloose, hitems, hlines, hparts⟩ := hclosed
  refine (partOfLines_refines hlines.reverse).bind fun part part' hpart => ?_
  exact .ok ⟨hg, _, ⟨⟨hloose, hitems, .nil, .cons hpart hparts⟩, hsame⟩, hc'.of_eq (by abel)⟩

end Levels

end SlotScript.Flat
