import Mathlib.Data.List.Chain
import Mathlib.Data.List.TakeWhile
import SlotScript.Proofs.Tree.Conservation
import SlotScript.Proofs.Tree.Stretch

/-!
# Spans nest like the tree

**Theorem (`Program.ofTokens_spansNest`).** If the tokens stand one behind the other, then every node of
the program that they make holds what is below it, what is below it stands one behind the other, and so
do the statements of the program.

The invariant is a row: the stretches that the levels of a builder hold, those of its expectation, and
those of the tokens that are still to come. A step merges the stretch of its token into the others
(`Builder.feed_merges`). The order of the row is the order of the reading of a half-built program, and
again items may be added only where no expression is being read.
-/

namespace SlotScript

/-! ## Half-built programs -/

/-- The stretch of an item of a run. -/
def RunItem.stretch : RunItem → Stretch
  | .operand node => node.stretch
  | .operator _ _ span => ⟨span, none⟩

/-- The stretches of a function's head. -/
def FunctionHead.stretches (head : FunctionHead) : List Stretch :=
  ⟨head.span, none⟩ :: head.params.map Param.stretch

/-- The stretches of an item of a statement. -/
def Item.stretches : Item → List Stretch
  | .node tree => [tree.stretch]
  | .otherwise span | .assign _ _ span => [⟨span, none⟩]
  | .branch cond span | .whileLoop cond span => [⟨span, none⟩, cond.stretch]
  | .forLoop init cond step span =>
    ⟨span, none⟩ :: (init.toList ++ cond.toList ++ step.toList).map Node.stretch
  | .define head => head.stretches

/-- The stretches of what a level has collected. -/
def Level.stretches (level : Level) : List Stretch :=
  (level.parts.reverse.flatMap Option.toList).map Node.stretch ++
    level.lines.reverse.map Node.stretch ++ level.items.reverse.flatMap Item.stretches ++
    level.run.reverse.map RunItem.stretch

/-- The stretches that a frame was opened with; the delimiter of a call is joined with the callee. -/
def Opener.stretches (span : Span) : Opener → List Stretch
  | .block (some head) => head.stretches ++ [⟨span, none⟩]
  | .call callee => [⟨span, some callee⟩]
  | .block none | .header _ | .params .. => [⟨span, none⟩]

/-- The stretches of a frame. -/
def Frame.stretches (frame : Frame) : List Stretch :=
  frame.opener.stretches frame.span ++ frame.level.stretches

/-- The stretches that an expectation stands for. -/
def Expectation.stretches : Expectation → List Stretch
  | .any | .otherwise => []
  | .header _ span | .function _ span | .params _ _ span | .target _ span
  | .initializer _ _ span => [⟨span, none⟩]
  | .body head _ _ => head.stretches

/-- The stretches that the levels of a builder hold. -/
def Builder.laid (b : Builder) : List Stretch :=
  b.root.stretches ++ b.frames.reverse.flatMap Frame.stretches

/-- All stretches of a builder. -/
def Builder.stretches (b : Builder) : List Stretch := b.laid ++ b.expectation.stretches

/-! ## Runs and lines -/

namespace Run

theorem headRedex_merges {run after : Run} {p : Nat} {node : Node}
    (h : headRedex run = some (p, .ok node, after)) :
    Merges (run.map RunItem.stretch) (node.stretch :: after.map RunItem.stretch) := by
  cases makes_of_headRedex h with
  | binary => exact (Merges.between _ _ rfl (by simp [Node.children])).before _
  | compound op name var place =>
    exact (Merges.between (.ident name var place) _ rfl (by simp [Node.children])).before _
  | unary => exact (Merges.headed [] rfl rfl).before _
  | ret => exact (Merges.headed [] rfl rfl).before _
  | bareRet p span => exact Merges.fill (.ret none span) (.of_sublist (List.nil_sublist _))

theorem reduce_merges {run after : Run} {p : Nat} (h : reduce run = some (p, .ok after)) :
    Merges (run.map RunItem.stretch) (after.map RunItem.stretch) := by
  obtain ⟨i, out, rest, hhead, hafter, -⟩ := reduce_eq_some h
  cases out with
  | error e => cases hafter
  | ok node =>
    obtain rfl : after = run.take i ++ .operand node :: rest := by simpa [Except.map] using hafter
    have hmerges := (headRedex_merges hhead).behind ((run.take i).map RunItem.stretch)
    rw [← List.map_append, List.take_append_drop] at hmerges
    rw [List.map_append]
    exact hmerges

/-- Folding a run joins its stretches. -/
theorem assemble_merges {run : Run} {node : Node} (h : assemble run = .ok node) :
    Merges (run.map RunItem.stretch) [node.stretch] := by
  refine assemble_ok_induction
    (motive := fun run node => Merges (run.map RunItem.stretch) [node.stretch]) ?_ ?_ h
  · intro operand
    exact .refl _
  · intro run p after node hreduce hafter
    exact (reduce_merges hreduce).trans hafter

end Run

theorem FunctionHead.complete_merges {head : FunctionHead} {binding : Option VarRef}
    {body node : Node} (h : head.complete binding body = .ok node) :
    Merges (head.stretches ++ [body.stretch]) [node.stretch] := by
  cases body with
  | block lines span =>
    cases h
    exact .headed _ rfl rfl
  | _ => cases h

namespace Line

/-- A choice reaches from its keyword to its last branch. -/
theorem branch_merges (span : Span) (cond yes : Node) (no : Option Node) :
    Merges ([⟨span, none⟩, cond.stretch] ++ [yes.stretch] ++ no.toList.map Node.stretch)
      [(Node.branch cond yes no .blank .blank (span.merge (no.getD yes).span)).stretch] := by
  cases no with
  | none => exact .headed [cond.stretch] rfl rfl
  | some no => exact .headed [cond.stretch, yes.stretch] rfl rfl

/-- What an item is joined to goes into what the two leave. -/
theorem Joins.merges {waiting waiting' : List Node} {otherwise otherwise' : Option (Node × Span)}
    {item : Item} (h : Joins waiting otherwise item waiting' otherwise') :
    Merges (item.stretches ++ waiting.map Node.stretch ++
        (otherwise.map (·.1)).toList.map Node.stretch)
      (waiting'.map Node.stretch ++ (otherwise'.map (·.1)).toList.map Node.stretch) := by
  cases h with
  | node => exact .refl _
  | otherwise => exact .of_sublist (by simp [Item.stretches])
  | assign => exact Merges.before (.headed [] rfl rfl) _
  | branch cond yes span =>
    simpa [Item.stretches] using branch_merges span cond yes (otherwise.map (·.1))
  | whileLoop cond => exact Merges.before (.headed [cond.stretch] rfl rfl) _
  | forLoop => exact Merges.before (.headed _ rfl rfl) _
  | define hnode => exact (FunctionHead.complete_merges hnode).before _

/-- Welding joins the stretches of the items. An `else` branch that waits for its `if` stands behind the
nodes that wait. -/
theorem weldFrom_merges {waiting : List Node} {otherwise : Option (Node × Span)}
    {items : List Item} {line : Option Node} (h : weldFrom waiting otherwise items = .ok line) :
    Merges (items.reverse.flatMap Item.stretches ++ waiting.map Node.stretch ++
        (otherwise.map (·.1)).toList.map Node.stretch)
      (line.toList.map Node.stretch) := by
  induction items generalizing waiting otherwise with
  | nil =>
    obtain ⟨rfl, rfl⟩ := weldFrom_nil_eq_ok h
    simpa using Merges.refl _
  | cons item rest ih =>
    obtain ⟨waiting', otherwise', hjoins, h⟩ := weldFrom_cons_eq_ok h
    have hrest := ih h
    rw [List.append_assoc] at hrest
    rw [List.reverse_cons, List.flatMap_append, List.flatMap_singleton, List.append_assoc,
      List.append_assoc, ← List.append_assoc item.stretches]
    exact (hjoins.merges.behind _).trans hrest

theorem weld_merges {items : List Item} {line : Option Node} (h : weld items = .ok line) :
    Merges (items.reverse.flatMap Item.stretches) (line.toList.map Node.stretch) := by
  simpa using weldFrom_merges h

end Line

/-! ## Levels -/

namespace Level

variable {level after : Level}

theorem closeExpression_merges (h : level.closeExpression = .ok after) :
    Merges level.stretches after.stretches := by
  rcases closeExpression_eq_ok h with ⟨-, rfl⟩ | ⟨node, hnode, rfl⟩
  · exact .refl _
  · have hmerges := (Run.assemble_merges hnode).behind
      ((level.parts.reverse.flatMap Option.toList).map Node.stretch ++
        level.lines.reverse.map Node.stretch ++ level.items.reverse.flatMap Item.stretches)
    simpa [stretches, Item.stretches] using hmerges

theorem closeLine_merges (h : level.closeLine = .ok after) :
    Merges level.stretches after.stretches := by
  obtain ⟨closed, line, hclosed, hline, rfl⟩ := closeLine_eq_ok h
  refine (closeExpression_merges hclosed).trans ?_
  have hmerges := (Line.weld_merges hline).behind
    ((closed.parts.reverse.flatMap Option.toList).map Node.stretch ++
      closed.lines.reverse.map Node.stretch)
  have hrun : closed.run = [] := closeExpression_run hclosed
  cases line <;> simpa [stretches, hrun] using hmerges

theorem closePart_merges (h : level.closePart = .ok after) :
    Merges level.stretches after.stretches := by
  obtain ⟨closed, part, hclosed, hpart, rfl⟩ := closePart_eq_ok h
  have hmerges := closeLine_merges hclosed
  simpa [stretches, hpart] using hmerges

/-- A level whose last part has been closed holds nothing but parts. -/
theorem closePart_parts_merges (h : level.closePart = .ok after) :
    Merges level.stretches ((after.parts.reverse.flatMap Option.toList).map Node.stretch) := by
  obtain ⟨hrun, hitems, hlines⟩ := closePart_empty h
  simpa [stretches, hrun, hitems, hlines] using closePart_merges h

/-- A level without parts whose last statement has been closed holds nothing but statements. -/
theorem closeLine_lines_merges (hparts : level.parts = []) (h : level.closeLine = .ok after) :
    Merges level.stretches (after.lines.reverse.map Node.stretch) := by
  obtain ⟨hrun, hitems⟩ := closeLine_empty h
  simpa [stretches, hrun, hitems, closeLine_parts h, hparts] using closeLine_merges h

theorem listParts_eq {missing : Missing} {close : Span} {parts : List (Option Node)}
    {nodes : List Node} (h : listParts missing close parts = .ok nodes) :
    parts.flatMap Option.toList = nodes := by
  rcases listParts_eq_ok h with ⟨rfl, rfl⟩ | rfl
  · rfl
  · simp [List.flatMap_map]

end Level

/-! ## Levels of a builder -/

namespace Builder

variable {b b' : Builder}

/-- The stretches outside the innermost level. -/
def around (b : Builder) : List Stretch :=
  match b.frames with
  | [] => []
  | frame :: outer =>
    b.root.stretches ++ outer.reverse.flatMap Frame.stretches ++ frame.opener.stretches frame.span

theorem laid_eq_around (b : Builder) : b.laid = b.around ++ b.level.stretches := by
  rcases b with ⟨root, _ | ⟨frame, outer⟩, expectation, previous, anonymous⟩
  · simp [laid, around, level]
  · simp [laid, around, level, Frame.stretches]

theorem laid_setLevel (b : Builder) (level : Level) :
    (b.setLevel level).laid = b.around ++ level.stretches := by
  rcases b with ⟨root, _ | ⟨frame, outer⟩, expectation, previous, anonymous⟩
  · simp [setLevel, laid, around]
  · simp [setLevel, laid, around, Frame.stretches]

/-- What joins the stretches of the innermost level joins those of the builder. -/
theorem setLevel_merges {level : Level} {added : List Stretch}
    (h : Merges (b.level.stretches ++ added) level.stretches) :
    Merges (b.laid ++ added) (b.setLevel level).laid := by
  rw [laid_setLevel, laid_eq_around, List.append_assoc]
  exact h.behind _

theorem closed_merges {level : Level} (h : Merges b.level.stretches level.stretches) :
    Merges b.laid (b.setLevel level).laid := by
  rw [laid_setLevel, laid_eq_around]
  exact h.behind _

theorem laid_push (b : Builder) (opener : Opener) (span : Span) :
    (b.push opener span).laid = b.laid ++ opener.stretches span := by
  simp [push, laid, Frame.stretches, Level.stretches]

theorem laid_operand (b : Builder) (node : Node) :
    (b.operand node).laid = b.laid ++ [node.stretch] := by
  rw [operand, mapLevel, laid_setLevel, laid_eq_around]
  simp [Level.operand, Level.stretches, RunItem.stretch]

theorem laid_operator (b : Builder) (op : Operator) (base : Nat) (span : Span) :
    (b.operator op base span).laid = b.laid ++ [⟨span, none⟩] := by
  rw [operator, mapLevel, laid_setLevel, laid_eq_around]
  simp [Level.operator, Level.stretches, RunItem.stretch]

/-- An item goes behind the stretches of a level that reads no expression. -/
theorem laid_item (item : Item) (hrun : b.level.run = []) :
    (b.mapLevel (·.item item)).laid = b.laid ++ item.stretches := by
  rw [mapLevel, laid_setLevel, laid_eq_around]
  simp [Level.item, Level.stretches, hrun]

theorem laid_cons {frame : Frame} {outer : List Frame} (hf : b.frames = frame :: outer) :
    b.laid = Builder.laid { b with frames := outer } ++ frame.stretches := by
  simp [laid, hf]

/-- The builder has taken these stretches in. -/
def Takes (b b' : Builder) (added : List Stretch) : Prop := Merges (b.laid ++ added) b'.stretches

theorem Takes.of_laid {added : List Stretch} (he : b'.expectation.stretches = [])
    (h : Merges (b.laid ++ added) b'.laid) : Takes b b' added := by
  rw [Takes, stretches, he, List.append_nil]
  exact h

theorem Takes.of_merges {added given : List Stretch} (h : Takes b b' given)
    (hmerges : Merges added given) : Takes b b' added :=
  (hmerges.behind b.laid).trans h

/-! ## Delimiters, separators and statements -/

theorem takes_operand (he : b.expectation = .any) (node : Node) :
    Takes b (b.operand node) [node.stretch] := by
  refine .of_laid (by simp [operand, he, Expectation.stretches]) ?_
  rw [laid_operand]
  exact .refl _

/-- A token that is a node of its own. -/
theorem takes_leaf (he : b.expectation = .any) (node : Node) (hchildren : node.children = []) :
    Takes b (b.operand node) [⟨node.span, none⟩] := by
  refine (takes_operand he node).of_merges (.fill node ?_)
  rw [hchildren]
  exact .of_sublist (List.nil_sublist _)

theorem takes_operator (he : b.expectation = .any) (op : Operator) (base : Nat) (span : Span) :
    Takes b (b.operator op base span) [⟨span, none⟩] := by
  refine .of_laid (by simp [operator, he, Expectation.stretches]) ?_
  rw [laid_operator]
  exact .refl _

theorem takes_item (he : b.expectation = .any) (item : Item) (hrun : b.level.run = []) :
    Takes b (b.mapLevel (·.item item)) item.stretches := by
  refine .of_laid (by simp [he, Expectation.stretches]) ?_
  rw [laid_item item hrun]
  exact .refl _

/-- A separator goes into no span. -/
theorem takes_tryLevel (he : b.expectation = .any) {f : Level → Except BuildError Level}
    (hf : ∀ {level after}, f level = .ok after → Merges level.stretches after.stretches)
    (h : b.tryLevel f = .ok b') (span : Span) : Takes b b' [⟨span, none⟩] := by
  obtain ⟨level, hlevel, rfl⟩ := tryLevel_eq_ok h
  exact .of_laid (by simp [he, Expectation.stretches]) ((closed_merges (hf hlevel)).drop _)

/-- The delimiter belongs to what the opener is for. -/
theorem takes_push (he : b.expectation = .any) (opener : Opener) (span place : Span) :
    Takes b (b.push opener span) (opener.stretches span ++ [⟨place, none⟩]) := by
  refine .of_laid (by simp [push, he, Expectation.stretches]) ?_
  rw [laid_push]
  exact ((Merges.refl _).drop _).behind b.laid

theorem takes_openParen (he : b.expectation = .any) (previous : Previous) (span : Span) :
    Takes b (b.openParen previous span) [⟨span, none⟩] := by
  have hgroup : Takes b (b.mapLevel fun level => { level with groups := span :: level.groups })
      [⟨span, none⟩] :=
    .of_laid (by simp [he, Expectation.stretches]) (setLevel_merges ((Merges.refl _).drop _))
  unfold openParen
  split
  · rename_i callee rest hrun _
    refine .of_laid (by simp [push, he, Expectation.stretches]) ?_
    rw [laid_push, mapLevel, laid_setLevel, laid_eq_around]
    have hjoin := (Merges.join callee.stretch ⟨span, none⟩).behind
      (b.around ++ Level.stretches { b.level with run := rest })
    simpa [Level.stretches, hrun, RunItem.stretch, Opener.stretches] using hjoin
  · exact hgroup

theorem takes_finishCall (he : b.expectation = .any) {callee : Node} {opening close : Span}
    {level : Level} (h : b.finishCall callee opening close level = .ok b') :
    Takes b b' (⟨opening, some callee⟩ :: (level.stretches ++ [⟨close, none⟩])) := by
  obtain ⟨closed, hclosed, h⟩ := bind_eq_ok_iff.mp h
  obtain ⟨args, hargs, h⟩ := bind_eq_ok_iff.mp h
  obtain rfl := pure_eq_ok_iff.mp h
  have hlevel := Level.closePart_parts_merges hclosed
  rw [Level.listParts_eq hargs] at hlevel
  have hcall : Merges (⟨opening, some callee⟩ :: (args.map Node.stretch ++ [⟨close, none⟩]))
      [(Node.call callee args (opening.merge close)).stretch] :=
    .enclose _ _ _ rfl
      ((Merges.inside opening callee).append ((Merges.refl _).drop _))
  have hoperand := takes_operand he (.call callee args (opening.merge close))
  exact hoperand.of_merges (((hlevel.before _).behind [_]).trans hcall)

theorem headerItem_stretches {construct : Construct} {span close : Span}
    {parts : List (Option Node)} {item : Item}
    (h : headerItem construct span close parts = .ok item) :
    item.stretches = ⟨span, none⟩ :: (parts.flatMap Option.toList).map Node.stretch := by
  unfold headerItem at h
  split at h <;> cases h <;> simp [Item.stretches]

theorem takes_finishHeader (he : b.expectation = .any) (hrun : b.level.run = [])
    {construct : Construct} {span close : Span} {level : Level}
    (h : b.finishHeader construct span close level = .ok b') :
    Takes b b' (⟨span, none⟩ :: (level.stretches ++ [⟨close, none⟩])) := by
  obtain ⟨closed, hclosed, h⟩ := bind_eq_ok_iff.mp h
  obtain ⟨item, hitem, h⟩ := bind_eq_ok_iff.mp h
  obtain rfl := pure_eq_ok_iff.mp h
  have hlevel := Level.closePart_parts_merges hclosed
  have htaken := takes_item he item hrun
  refine htaken.of_merges ?_
  rw [headerItem_stretches hitem]
  exact (hlevel.drop _).behind [_]

theorem paramOf_merges {node : Node} {param : Param} (h : paramOf node = .ok param) :
    Merges [node.stretch] [param.stretch] := by
  unfold paramOf at h
  split at h
  · cases h
    exact .of_sound fun hsound => ⟨hsound.ordered, nofun, nofun⟩
  · rename_i name var value span
    cases h
    refine .of_sound fun hsound => ?_
    obtain ⟨hspans, hparts⟩ := Node.everywhere_iff.mp (hsound.nested _ rfl)
    refine ⟨hsound.ordered, ?_, ?_⟩
    · rintro _ ⟨⟩
      exact (hspans.covers value.stretch List.mem_cons_self).1
    · rintro _ ⟨⟩
      exact hparts value List.mem_cons_self
  · cases h

theorem mapM_paramOf_merges {nodes : List Node} {params : List Param}
    (h : nodes.mapM paramOf = .ok params) :
    Merges (nodes.map Node.stretch) (params.map Param.stretch) := by
  induction nodes generalizing params with
  | nil =>
    cases h
    exact .refl _
  | cons node rest ih =>
    rw [List.mapM_cons] at h
    obtain ⟨param, hparam, h⟩ := bind_eq_ok_iff.mp h
    obtain ⟨others, hothers, h⟩ := bind_eq_ok_iff.mp h
    obtain rfl := pure_eq_ok_iff.mp h
    exact (paramOf_merges hparam).append (ih hothers)

theorem takes_finishParams {name : String} {anonymous : Bool} {span close : Span} {level : Level}
    (h : b.finishParams name anonymous span close level = .ok b') :
    Takes b b' (⟨span, none⟩ :: (level.stretches ++ [⟨close, none⟩])) := by
  obtain ⟨closed, hclosed, h⟩ := bind_eq_ok_iff.mp h
  obtain ⟨parts, hparts, h⟩ := bind_eq_ok_iff.mp h
  obtain ⟨params, hparams, h⟩ := bind_eq_ok_iff.mp h
  obtain rfl := pure_eq_ok_iff.mp h
  have hlevel := Level.closePart_parts_merges hclosed
  rw [Level.listParts_eq hparts] at hlevel
  have hparams := (hlevel.trans (mapM_paramOf_merges hparams)).drop [⟨close, none⟩]
  exact (hparams.behind [⟨span, none⟩]).behind b.laid

theorem takes_finishBlock (he : b.expectation = .any) {head : Option FunctionHead}
    (hrun : head = none → b.level.run = []) {opening close : Span} {level : Level}
    (hparts : level.parts = []) (h : b.finishBlock head opening close level = .ok b') :
    Takes b b' ((Opener.block head).stretches opening ++ (level.stretches ++ [⟨close, none⟩])) := by
  obtain ⟨closed, hclosed, h⟩ := bind_eq_ok_iff.mp h
  have hlevel := Level.closeLine_lines_merges hparts hclosed
  have hblock : Merges (⟨opening, none⟩ :: (level.stretches ++ [⟨close, none⟩]))
      [(Node.block closed.lines.reverse (opening.merge close)).stretch] := by
    refine ((hlevel.before _).behind [_]).trans (.enclose _ _ _ rfl (.of_sublist ?_))
    exact (List.sublist_append_left _ _).trans (List.sublist_cons_self _ _)
  cases head with
  | none =>
    obtain rfl := pure_eq_ok_iff.mp h
    refine .of_laid rfl ?_
    have hlaid := laid_item (.node (.block closed.lines.reverse (opening.merge close))) (hrun rfl)
    exact hlaid ▸ hblock.behind b.laid
  | some head =>
    obtain ⟨node, hnode, h⟩ := bind_eq_ok_iff.mp h
    obtain rfl := pure_eq_ok_iff.mp h
    refine (takes_operand he node).of_merges ?_
    have hhead := (hblock.behind head.stretches).trans (FunctionHead.complete_merges hnode)
    simpa [Opener.stretches] using hhead

theorem Takes.of_frame {frame : Frame} {outer : List Frame} (hf : b.frames = frame :: outer)
    {added : List Stretch}
    (h : Takes { b with frames := outer } b' (frame.stretches ++ added)) : Takes b b' added := by
  rw [Takes, ← List.append_assoc, ← laid_cons hf] at h
  exact h

theorem takes_closeParen (he : b.expectation = .any) (hb : framesClear b.root b.frames)
    {span : Span} (h : b.closeParen span = .ok b') : Takes b b' [⟨span, none⟩] := by
  rcases closeParen_eq_ok h with
    ⟨opening, groups, -, rfl⟩ | ⟨opener, place, level, outer, -, hframes, h⟩
  · exact .of_laid (by simp [he, Expectation.stretches]) (setLevel_merges ((Merges.refl _).drop _))
  · rw [hframes] at hb
    obtain ⟨-, hwaits, hb⟩ := hb
    refine .of_frame hframes ?_
    rw [Frame.stretches]
    rcases h with ⟨callee, rfl, h⟩ | ⟨construct, rfl, h⟩ | ⟨name, anonymous, rfl, h⟩
    · exact takes_finishCall (b := { b with frames := outer }) he h
    · exact takes_finishHeader (b := { b with frames := outer }) he (hwaits rfl) h
    · exact takes_finishParams h

theorem takes_openBrace (he : b.expectation = .any) {span : Span}
    (h : b.openBrace span = .ok b') : Takes b b' [⟨span, none⟩] := by
  obtain ⟨level, hlevel, rfl⟩ := openBrace_eq_ok h
  refine .of_laid (by simp [push, he, Expectation.stretches]) ?_
  rw [laid_push]
  exact (closed_merges (Level.closeExpression_merges hlevel)).before _

theorem takes_closeBrace (he : b.expectation = .any) (hb : framesClear b.root b.frames)
    {span : Span} (h : b.closeBrace span = .ok b') : Takes b b' [⟨span, none⟩] := by
  obtain ⟨head, place, level, outer, -, hframes, h⟩ := closeBrace_eq_ok h
  rw [hframes] at hb
  obtain ⟨hparts, hwaits, hb⟩ := hb
  refine .of_frame hframes ?_
  rw [Frame.stretches, List.append_assoc]
  refine takes_finishBlock (b := { b with frames := outer }) he ?_ (hparts rfl) h
  rintro rfl
  exact hwaits rfl

theorem takes_semicolon (he : b.expectation = .any) {span : Span}
    (h : b.semicolon span = .ok b') : Takes b b' [⟨span, none⟩] := by
  obtain ⟨-, ⟨h, -⟩ | ⟨h, -⟩⟩ := semicolon_eq_ok h
  · exact takes_tryLevel he Level.closeLine_merges h span
  · exact takes_tryLevel he Level.closePart_merges h span

theorem takes_comma (he : b.expectation = .any) {span : Span} (h : b.comma span = .ok b') :
    Takes b b' [⟨span, none⟩] :=
  takes_tryLevel he Level.closePart_merges (comma_eq_ok h).2.2 span

/-- The target of an assignment is a name, of which the place is kept. -/
theorem takes_equals (he : b.expectation = .any) {span : Span} (h : b.equals span = .ok b') :
    Takes b b' [⟨span, none⟩] := by
  obtain ⟨name, var, place, -, hrun, rfl⟩ := equals_eq_ok h
  refine .of_laid (by simp [he, Expectation.stretches]) (setLevel_merges (Merges.drop ?_ _))
  have htarget : Merges [(Node.ident name var place).stretch] [⟨place, none⟩] :=
    .of_sound fun hsound => ⟨hsound.ordered, nofun, nofun⟩
  have hlevel := htarget.behind (Level.stretches { b.level with run := [] })
  simpa [Level.stretches, Level.item, hrun, RunItem.stretch, Item.stretches] using hlevel

theorem takes_otherwise (he : b.expectation = .any) {span : Span}
    (h : b.otherwise span = .ok b') : Takes b b' [⟨span, none⟩] := by
  obtain ⟨level, node, items, hlevel, -, rfl⟩ := otherwise_eq_ok h
  refine .of_laid (by simp [he, Expectation.stretches]) ?_
  rw [laid_item]
  · exact (closed_merges (Level.closeExpression_merges hlevel)).before _
  · rw [level_setLevel]
    exact Level.closeExpression_run hlevel

/-- A keyword ends the expression and stays in the expectation. -/
theorem takes_start {level : Level} (hlevel : b.level.closeExpression = .ok level)
    (expectation : Expectation) :
    Takes b ((b.setLevel level).expect expectation) expectation.stretches :=
  (closed_merges (Level.closeExpression_merges hlevel)).before _

theorem declareBare_merges (hrun : b.level.run = []) {decl : DeclKind} {name : String}
    {span : Span} (h : b.declareBare decl name span = .ok b') :
    Merges (b.laid ++ [⟨span, none⟩]) b'.laid := by
  obtain ⟨-, rfl⟩ := declareBare_eq_ok h
  rw [laid_item _ hrun]
  have hvalue := Merges.fill (.null span) (.of_sublist (List.nil_sublist _))
  exact (Merges.fill (.assign name .unresolved decl none (.null span) span) hvalue).behind b.laid

/-! ## Tokens -/

theorem takes_word (he : b.expectation = .any) (hb : framesClear b.root b.frames)
    {previous : Previous} {text : String} {span : Span}
    (h : b.word previous text span = .ok b') : Takes b b' [⟨span, none⟩] := by
  unfold word at h
  generalize Role.ofWord text = role at h
  cases role with
  | openParen =>
    cases h
    exact takes_openParen he previous span
  | closeParen => exact takes_closeParen he hb h
  | openBrace => exact takes_openBrace he h
  | closeBrace => exact takes_closeBrace he hb h
  | comma => exact takes_comma he h
  | equals => exact takes_equals he h
  | construct construct =>
    obtain ⟨level, hlevel, rfl⟩ := start_eq_ok h
    exact takes_start hlevel _
  | otherwise => exact takes_otherwise he h
  | function =>
    cases h
    exact .refl _
  | declare decl =>
    obtain ⟨level, hlevel, rfl⟩ := start_eq_ok h
    exact takes_start hlevel _
  | minus =>
    dsimp only at h
    split at h <;> cases h <;> exact takes_operator he _ _ span
  | ret | unary _ | binary _ | compound _ =>
    cases h
    exact takes_operator he _ _ span
  | breakLoop | continueLoop | bool _ | null | name =>
    cases h
    exact takes_leaf he _ rfl
  | unsupported => cases h
  | unknown => cases h

theorem takes_handle (he : b.expectation = .any) (hb : framesClear b.root b.frames)
    {previous : Previous} {token : Token} (heof : token.kind ≠ .eof)
    (h : b.handle previous token = .ok b') : Takes b b' [⟨token.span, none⟩] := by
  obtain ⟨kind, span⟩ := token
  cases kind with
  | word text => exact takes_word he hb h
  | separator => exact takes_semicolon he h
  | eof => exact absurd rfl heof
  | int _ | float _ | literal _ =>
    cases h
    exact takes_leaf he _ rfl

/-- **A step joins the stretch of its token with those of the builder.** -/
theorem feed_merges (hb : b.Clear) {token : Token} (heof : token.kind ≠ .eof)
    (h : b.feed token = .ok b') : Merges (b.stretches ++ [⟨token.span, none⟩]) b'.stretches := by
  obtain ⟨hrun, hb⟩ := hb
  have hany : (b.past token).expectation = .any := rfl
  have hb : framesClear (b.past token).root (b.past token).frames := hb
  have hrun : b.expectation.waits = true → (b.past token).level.run = [] := hrun
  -- The keyword or the block that the builder waits behind is joined along with the token.
  rw [stretches, List.append_assoc]
  show Takes (b.past token) b' (b.expectation.stretches ++ [⟨token.span, none⟩])
  cases fed h with
  | handled hwaits h =>
    rw [hwaits]
    exact takes_handle hany hb heof h
  | header hwaits hkind =>
    rw [hwaits]
    exact takes_push hany _ _ _
  | @name keyword name span level hwaits hname hlevel =>
    rw [hwaits]
    exact (takes_start hlevel (.params name keyword span)).of_merges
      ((Merges.refl [⟨span, none⟩]).drop _)
  | @unnamed keyword span hwaits hname hkind =>
    rw [hwaits]
    exact takes_push (b := { b.past token with anonymous := b.anonymous + 1 }) hany
      (.params b.anonymousName true) span token.span
  | params hwaits hkind =>
    rw [hwaits]
    exact takes_push hany _ _ _
  | value hwaits hkind =>
    rw [hwaits]
    refine .of_laid rfl ?_
    rw [laid_push]
    exact .refl _
  | body hwaits hkind =>
    rw [hwaits] at hrun ⊢
    refine .of_laid (by simp [push, hany, Expectation.stretches]) ?_
    rw [laid_push, laid_item _ (hrun rfl), List.append_assoc]
    exact .refl _
  | target hwaits hname =>
    rw [hwaits]
    exact (Merges.join _ _).behind (b.past token).laid
  | @assigned decl name span hwaits hkind =>
    rw [hwaits] at hrun ⊢
    exact (takes_item hany (.assign name decl span) (hrun rfl)).of_merges
      ((Merges.refl [⟨span, none⟩]).drop _)
  | @declared decl name span declared _ hwaits hkind hdeclared h =>
    rw [hwaits] at hrun ⊢
    obtain ⟨hany, hb, -, -⟩ := declareBare_collected hb (hrun rfl) hdeclared
    show Merges ((b.past token).laid ++ ([⟨span, none⟩] ++ [⟨token.span, none⟩])) b'.stretches
    rw [← List.append_assoc]
    exact ((declareBare_merges (hrun rfl) hdeclared).before _).trans (takes_handle hany hb heof h)
  | branch hwaits hkind h =>
    rw [hwaits]
    exact takes_handle hany hb heof h
  | @ended level _ hwaits hkind hlevel h =>
    rw [hwaits]
    have hclear := framesClear_setLevel hb fun _ => Level.closeLine_parts hlevel
    exact ((closed_merges (Level.closeLine_merges hlevel)).before _).trans
      (takes_handle ((expectation_setLevel _ level).trans hany) hclear heof h)

/-- Reading tokens joins their stretches with those of the builder. -/
theorem foldlM_feed_merges {tokens : List Token} (hb : b.Clear)
    (heof : ∀ token ∈ tokens, token.kind ≠ .eof) (h : tokens.foldlM feed b = .ok b') :
    b'.Clear ∧ Merges (b.stretches ++ tokens.map fun token => ⟨token.span, none⟩) b'.stretches := by
  induction tokens generalizing b with
  | nil =>
    cases h
    exact ⟨hb, (Merges.refl _).drop []⟩
  | cons token rest ih =>
    rw [List.foldlM_cons] at h
    obtain ⟨next, hnext, h⟩ := bind_eq_ok_iff.mp h
    obtain ⟨htoken, hrest⟩ := List.forall_mem_cons.mp heof
    obtain ⟨hclear, hmerges⟩ := ih (feed_total hb htoken hnext).1 hrest h
    refine ⟨hclear, ?_⟩
    rw [List.map_cons, ← List.singleton_append, ← List.append_assoc]
    exact ((feed_merges hb htoken hnext).before _).trans hmerges

/-- At the end only a declaration without a value is still to be made. -/
theorem settle_merges (hb : b.Clear) {ending : Option Span} (h : b.settle ending = .ok b') :
    Merges b.stretches b'.laid := by
  rw [stretches]
  rcases settle_eq_ok h with ⟨hwaits, rfl⟩ | ⟨decl, name, span, hwaits, h⟩ | ⟨hwaits, h⟩
  · rw [hwaits]
    exact (Merges.refl _).drop []
  · have hrun := hb.1
    rw [hwaits] at hrun ⊢
    exact declareBare_merges (hrun rfl) h
  · obtain ⟨level, hlevel, rfl⟩ := tryLevel_eq_ok h
    rw [hwaits]
    exact (closed_merges (Level.closeLine_merges hlevel)).drop []

theorem finish_merges (hb : b.Clear) {ending : Option Span} {program : Program}
    (h : b.finish ending = .ok program) :
    Merges b.stretches (program.body.map Node.stretch) := by
  obtain ⟨settled, hsettled, h⟩ := bind_eq_ok_iff.mp h
  obtain ⟨hclear, -⟩ := settle_total hb hsettled
  have hmerges := settle_merges hb hsettled
  split at h
  · cases h
  · cases h
  · rename_i hframes hgroups
    obtain ⟨root, hroot, h⟩ := bind_eq_ok_iff.mp h
    obtain rfl := pure_eq_ok_iff.mp h
    rw [hframes] at hclear
    rw [laid, hframes, List.reverse_nil, List.flatMap_nil, List.append_nil] at hmerges
    exact hmerges.trans (Level.closeLine_lines_merges hclear hroot)

end Builder

/-- Tokens that stand one behind the other stand in a row. -/
theorem row_of_tokens {tokens : List Token}
    (hordered : ∀ token ∈ tokens, token.span.start ≤ token.span.stop)
    (hapart : tokens.IsChain fun a b => a.span.stop ≤ b.span.start) {low : Nat}
    (hlow : ∀ token ∈ tokens.head?, low ≤ token.span.start) :
    ∃ high, Row low (tokens.map fun token => ⟨token.span, none⟩) high := by
  induction tokens generalizing low with
  | nil => exact ⟨low, Nat.le_refl low⟩
  | cons token rest ih =>
    obtain ⟨htoken, hrest⟩ := List.forall_mem_cons.mp hordered
    obtain ⟨hnext, hapart⟩ := List.isChain_cons.mp hapart
    obtain ⟨high, hrow⟩ := ih hrest hapart hnext
    exact ⟨high, hlow token rfl, ⟨htoken, nofun, nofun⟩, hrow⟩

/-- **The spans of a program nest like its tree**, if its tokens stand one behind the other. -/
theorem Program.ofTokens_spansNest {tokens : List Token}
    (hordered : ∀ token ∈ tokens, token.span.start ≤ token.span.stop)
    (hapart : tokens.IsChain fun a b => a.span.stop ≤ b.span.start) {program : Program}
    (h : Program.ofTokens tokens = .ok program) :
    program.Everywhere Node.SpansNest ∧
      program.body.Pairwise fun a b => a.span.stop ≤ b.span.start := by
  obtain ⟨b, hb, h⟩ := bind_eq_ok_iff.mp h
  have hlive := List.takeWhile_prefix (fun token : Token => token.kind ≠ .eof) (l := tokens)
  have heof : ∀ token ∈ tokens.takeWhile (·.kind ≠ .eof), token.kind ≠ .eof :=
    fun token htoken => by simpa using List.mem_takeWhile_imp htoken
  have hstart : Builder.Clear {} := ⟨by simp [Expectation.waits], rfl⟩
  obtain ⟨hclear, hread⟩ := Builder.foldlM_feed_merges hstart heof hb
  have hmerges := hread.trans (Builder.finish_merges hclear h)
  have hfirst : ∀ token ∈ (tokens.takeWhile (·.kind ≠ .eof)).head?, 0 ≤ token.span.start :=
    fun _ _ => Nat.zero_le _
  have hchain := List.IsChain.prefix hapart hlive
  obtain ⟨high, hrow⟩ :=
    row_of_tokens (fun token htoken => hordered token (hlive.mem htoken)) hchain hfirst
  -- The builder starts with nothing, so the row of the tokens becomes that of the statements.
  have hbody : Row 0 (program.body.map Node.stretch) high := hmerges 0 high hrow
  refine ⟨fun node hnode => ?_, List.pairwise_map.mp hbody.apart⟩
  exact (hbody.covers node.stretch (List.mem_map_of_mem hnode)).2.nested node rfl

/-- A function in a call, defaults, an `else` branch and a group:
`f(def (a, b = 1 + 2) { if (a) b else return; }, 3) * (4 - x)`, with the tokens a little apart. -/
theorem Program.ofTokens_spansNest_apart : ∃ program,
    Program.ofTokens ([.word "f", .word "(", .word "def", .word "(", .word "a", .word ",",
      .word "b", .word "=", .int 1, .word "+", .int 2, .word ")", .word "\x7b", .word "if",
      .word "(", .word "a", .word ")", .word "b", .word "else", .word "return", .separator,
      .word "\x7d", .word ",", .int 3, .word ")", .word "*", .word "(", .int 4, .word "-",
      .word "x", .word ")", .eof].mapIdx fun i kind => ⟨kind, 10 * i, 10 * i + 5⟩) = .ok program ∧
    program.Everywhere Node.SpansNest := by
  refine (exists_ok_of_isOk ?_).imp fun program h => ⟨h, ?_⟩
  · decide +kernel
  · exact (Program.ofTokens_spansNest (by decide) (by decide) h).1

end SlotScript
