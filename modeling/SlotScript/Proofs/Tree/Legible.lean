import SlotScript.Proofs.Token.Layout
import SlotScript.Proofs.Tree.Everywhere
import SlotScript.Proofs.Tree.Fed
import SlotScript.Proofs.Tree.Unit
import SlotScript.Proofs.Tree.Weld

/-!
# Names and operators of a tree

The scanner makes names of letters, underscores and digits, and no double that it makes has a sign. A
tree is *legible* if its names are such names, its doubles are without a sign, its compound assignments
have one of the operators for that and no keyword, and its functions without a name have a made-up one.

**Theorem (`Program.ofTokens_legible`).** What is built from legible tokens is legible.

**Theorem (`Token.scan_legible`).** The tokens of a source text are legible.

The builder holds nodes, names and operators in many places. An invariant says of each of them that it
is legible, and every step keeps it.
-/

namespace SlotScript

/-- A letter or an underscore, then letters, underscores and digits. -/
structure IsName (word : String) : Prop where
  head : ∃ c, word.toList.head? = some c ∧ startsName c = true
  chars : ∀ c ∈ word.toList, continuesName c = true

/-- The name of a function: a made-up one if it has none of its own. -/
def IsFunctionName (anonymous : Bool) (name : String) : Prop :=
  if anonymous then ∃ n : Nat, name = "anon#" ++ toString n else IsName name

/-- What can be a name is one, and doubles have no sign. -/
def TokenKind.Legible : TokenKind → Prop
  | .word text => isIdentifier text = true → IsName text
  | .float bits => bits.toNat ≤ Decimal.infinityBits
  | _ => True

/-- The node's own names, operator and number are such as the scanner makes them. -/
def Node.OwnLegible : Node → Prop
  | .float bits _ => bits.toNat ≤ Decimal.infinityBits
  | .ident name _ _ => IsName name
  | .assign target _ decl op _ _ =>
    IsName target ∧ ∀ o ∈ op, o ∈ BinaryOp.compounds ∧ decl = .plain
  | .define name binding params _ _ _ =>
    IsFunctionName binding.isNone name ∧ ∀ param ∈ params, IsName param.name
  | _ => True

/-- The node and all nodes below it are legible. -/
def Node.Legible (node : Node) : Prop := node.Everywhere Node.OwnLegible

theorem Node.legible_iff {node : Node} :
    node.Legible ↔ node.OwnLegible ∧ ∀ sub ∈ node.parts.map Prod.snd, sub.Legible :=
  Node.everywhere_iff

theorem names_unmarkedParams (params : List Param) :
    (unmarkedParams params).map Param.name = params.map Param.name := by
  induction params with
  | nil => rfl
  | cons param rest ih =>
    obtain ⟨name, value, span⟩ := param
    rw [unmarkedParams, List.map_cons, List.map_cons, ih]
    rfl

theorem Node.ownLegible_unmarked (node : Node) : node.unmarked.OwnLegible ↔ node.OwnLegible := by
  cases node with
  | define name binding params body frame span =>
    have hnames : ∀ params : List Param, (∀ param ∈ params, IsName param.name) ↔
        ∀ name ∈ params.map Param.name, IsName name := fun _ => List.forall_mem_map.symm
    rw [Node.unmarked, OwnLegible, OwnLegible, hnames, hnames, names_unmarkedParams]
    cases binding <;> rfl
  | _ => simp [Node.unmarked, OwnLegible]

/-! ## Half-built programs -/

/-- A compound assignment has an operator that can have one. -/
def Operator.Legible : Operator → Prop
  | .compound op => op ∈ BinaryOp.compounds
  | _ => True

/-- The operand or the operator. -/
def RunItem.Legible : RunItem → Prop
  | .operand node => node.Legible
  | .operator op _ _ => op.Legible

/-- The names and the defaults of parameters. -/
def LegibleParams (params : List Param) : Prop :=
  ∀ param ∈ params, IsName param.name ∧ ∀ value ∈ param.default, value.Legible

/-- The head of a function with or without a name. -/
def FunctionHead.Legible (anonymous : Bool) (head : FunctionHead) : Prop :=
  IsFunctionName anonymous head.name ∧ LegibleParams head.params

/-- The item's nodes and names. -/
def Item.Legible : Item → Prop
  | .node tree | .branch tree _ | .whileLoop tree _ => tree.Legible
  | .otherwise _ => True
  | .assign target _ _ => IsName target
  | .forLoop init cond step _ => ∀ part ∈ [init, cond, step], ∀ tree ∈ part, Node.Legible tree
  | .define head => head.Legible false

/-- All that a level holds. -/
structure Level.Legible (level : Level) : Prop where
  run : ∀ item ∈ level.run, item.Legible
  items : ∀ item ∈ level.items, item.Legible
  lines : ∀ node ∈ level.lines, node.Legible
  parts : ∀ part ∈ level.parts, ∀ node ∈ part, node.Legible

/-- What an open delimiter belongs to. -/
def Opener.Legible : Opener → Prop
  | .block head => ∀ given ∈ head, FunctionHead.Legible true given
  | .call callee => callee.Legible
  | .header _ => True
  | .params name anonymous => IsFunctionName anonymous name

/-- An open delimiter and what has been collected since. -/
structure Frame.Legible (frame : Frame) : Prop where
  opener : frame.opener.Legible
  level : frame.level.Legible

/-- The names in an expectation. -/
def Expectation.Legible : Expectation → Prop
  | .params name _ _ | .initializer _ name _ => IsName name
  | .body head anonymous _ => head.Legible anonymous
  | _ => True

/-- All that a builder holds. -/
structure Builder.Legible (b : Builder) : Prop where
  root : b.root.Legible
  frames : ∀ frame ∈ b.frames, frame.Legible
  expectation : b.expectation.Legible

/-! ## Folding a run -/

namespace Run

theorem legible_headRedex {run rest : Run} {p : Nat} {node : Node} (hrun : ∀ item ∈ run, item.Legible)
    (h : headRedex run = some (p, .ok node, rest)) : node.Legible := by
  have hoperand : ∀ node, .operand node ∈ run → node.Legible := fun node => hrun (.operand node)
  rw [Node.legible_iff]
  cases makes_of_headRedex h with
  | binary =>
    exact ⟨trivial, by simpa [Node.parts] using ⟨hoperand _ (by simp), hoperand _ (by simp)⟩⟩
  | compound op name var place value _ span =>
    have hop : op ∈ BinaryOp.compounds := hrun (.operator (.compound op) p span) (by simp)
    have hname : IsName name :=
      (Node.legible_iff.mp (hoperand (.ident name var place) (by simp))).1
    refine ⟨⟨hname, ?_⟩, by simpa [Node.parts] using hoperand value (by simp)⟩
    rintro o ⟨⟩
    exact ⟨hop, rfl⟩
  | unary => exact ⟨trivial, by simpa [Node.parts] using hoperand _ (by simp)⟩
  | ret => exact ⟨trivial, by simpa [Node.parts] using hoperand _ (by simp)⟩
  | bareRet => exact ⟨trivial, by simp [Node.parts]⟩

theorem legible_assemble {run : Run} {node : Node} (h : assemble run = .ok node)
    (hrun : ∀ item ∈ run, item.Legible) : node.Legible := by
  revert hrun
  refine assemble_ok_induction (motive := fun run node =>
    (∀ item ∈ run, RunItem.Legible item) → node.Legible) (fun node hrun => hrun (.operand node) (by simp)) ?_ h
  intro run p after node hreduce ih hrun
  obtain ⟨i, out, rest, hhead, hout, -⟩ := reduce_eq_some hreduce
  cases out with
  | error e => cases hout
  | ok x =>
    have hdrop : ∀ item ∈ run.drop i, item.Legible := fun item hitem =>
      hrun item (List.mem_of_mem_drop hitem)
    obtain rfl : after = run.take i ++ .operand x :: rest := by simpa [Except.map] using hout
    refine ih fun item hitem => ?_
    rcases List.mem_append.mp hitem with hmem | hmem
    · exact hrun item (List.mem_of_mem_take hmem)
    · rcases List.mem_cons.mp hmem with rfl | hmem
      · exact legible_headRedex hdrop hhead
      · exact hdrop item ((headRedex_mem hhead).2 hmem)

end Run

/-! ## Welding a line -/

theorem FunctionHead.legible_complete {head : FunctionHead} {binding : Option VarRef} {body node : Node}
    (h : head.complete binding body = .ok node) (hhead : head.Legible binding.isNone)
    (hbody : body.Legible) : node.Legible := by
  obtain ⟨hname, hparams⟩ := hhead
  have hnode : node = .define head.name binding head.params body .blank
      (head.span.merge body.span) := by
    cases body with
    | block => exact (Except.ok.inj h).symm
    | _ => cases h
  rw [hnode, Node.legible_iff]
  refine ⟨⟨hname, fun param hparam => (hparams param hparam).1⟩, ?_⟩
  simp only [Node.parts, List.map_cons, List.map_map, List.mem_cons, Param.defaults, List.mem_map,
    List.mem_filterMap]
  rintro sub (rfl | ⟨value, ⟨param, hparam, hvalue⟩, rfl⟩)
  · exact hbody
  · exact (hparams param hparam).2 value hvalue

namespace Line

theorem Joins.legible {waiting waiting' : List Node} {otherwise otherwise' : Option (Node × Span)}
    {item : Item} (h : Joins waiting otherwise item waiting' otherwise') (hitem : item.Legible)
    (hwaiting : ∀ node ∈ waiting, node.Legible) (hotherwise : ∀ branch ∈ otherwise, branch.1.Legible) :
    (∀ node ∈ waiting', node.Legible) ∧ ∀ branch ∈ otherwise', branch.1.Legible := by
  have hone : ∀ {node : Node}, node.OwnLegible → (∀ part ∈ node.parts.map Prod.snd, part.Legible) →
      (∀ other ∈ [node], other.Legible) ∧ ∀ branch ∈ none, (branch : Node × Span).1.Legible := by
    intro node hown hparts
    simpa using Node.legible_iff.mpr ⟨hown, hparts⟩
  cases h with
  | node => exact ⟨List.forall_mem_cons.mpr ⟨hitem, hwaiting⟩, hotherwise⟩
  | otherwise => exact ⟨by simp, by simpa using hwaiting⟩
  | assign =>
    refine hone ⟨hitem, by simp⟩ ?_
    simpa [Node.parts] using hwaiting
  | branch =>
    refine hone trivial ?_
    simp only [Node.parts, List.map_cons, List.map_map, List.forall_mem_cons, List.forall_mem_map,
      Option.mem_toList]
    refine ⟨hitem, hwaiting _ (by simp), fun no hno => ?_⟩
    obtain ⟨given, hgiven, rfl⟩ := Option.mem_map.mp hno
    exact hotherwise given hgiven
  | whileLoop =>
    refine hone trivial ?_
    simpa [Node.parts] using ⟨hitem, hwaiting _ (by simp)⟩
  | forLoop =>
    refine hone trivial ?_
    simp only [Item.Legible, List.forall_mem_cons] at hitem
    simp only [Node.parts, List.map_cons, List.map_map, List.forall_mem_cons, List.forall_mem_map,
      List.forall_mem_append, Option.mem_toList]
    exact ⟨hwaiting _ (by simp), ⟨hitem.1, hitem.2.1⟩, hitem.2.2.1⟩
  | define hnode =>
    simpa using FunctionHead.legible_complete hnode hitem (hwaiting _ (by simp))

theorem legible_weldFrom {waiting : List Node} {otherwise : Option (Node × Span)} {items : List Item}
    {line : Option Node} (h : weldFrom waiting otherwise items = .ok line)
    (hwaiting : ∀ node ∈ waiting, node.Legible) (hotherwise : ∀ branch ∈ otherwise, branch.1.Legible)
    (hitems : ∀ item ∈ items, item.Legible) : ∀ node ∈ line, node.Legible := by
  induction items generalizing waiting otherwise with
  | nil =>
    obtain ⟨-, rfl⟩ := weldFrom_nil_eq_ok h
    simpa using hwaiting
  | cons item rest ih =>
    obtain ⟨hitem, hrest⟩ := List.forall_mem_cons.mp hitems
    obtain ⟨waiting', otherwise', hjoins, h⟩ := weldFrom_cons_eq_ok h
    obtain ⟨hwaiting, hotherwise⟩ := hjoins.legible hitem hwaiting hotherwise
    exact ih h hwaiting hotherwise hrest

end Line

/-! ## Closing a level -/

namespace Level

variable {level after : Level}

theorem legible_empty : Level.Legible {} := ⟨by simp, by simp, by simp, by simp⟩

theorem Legible.operand (h : level.Legible) {node : Node} (hnode : node.Legible) :
    (level.operand node).Legible :=
  { h with run := List.forall_mem_cons.mpr ⟨hnode, h.run⟩ }

theorem Legible.item (h : level.Legible) (item : Item) (hitem : item.Legible) :
    (level.item item).Legible :=
  { h with items := List.forall_mem_cons.mpr ⟨hitem, h.items⟩ }

theorem Legible.closeExpression (h : level.Legible) (hclose : level.closeExpression = .ok after) :
    after.Legible := by
  rcases closeExpression_eq_ok hclose with ⟨-, rfl⟩ | ⟨node, hnode, rfl⟩
  · exact h
  · have hnode : (Item.node node).Legible := Run.legible_assemble hnode fun item hitem =>
      h.run item (List.mem_reverse.mp hitem)
    exact { h with run := by simp, items := List.forall_mem_cons.mpr ⟨hnode, h.items⟩ }

theorem Legible.closeLine (h : level.Legible) (hclose : level.closeLine = .ok after) : after.Legible := by
  obtain ⟨closed, line, hclosed, hline, rfl⟩ := closeLine_eq_ok hclose
  have hclosed := h.closeExpression hclosed
  have hline := Line.legible_weldFrom hline (by simp) (by simp) hclosed.items
  refine { hclosed with items := by simp, lines := ?_ }
  exact List.forall_mem_append.mpr ⟨fun node hnode => hline node (Option.mem_toList.mp hnode),
    hclosed.lines⟩

theorem Legible.closePart (h : level.Legible) (hclose : level.closePart = .ok after) : after.Legible := by
  obtain ⟨closed, part, hclosed, hpart, rfl⟩ := closePart_eq_ok hclose
  have hclosed := h.closeLine hclosed
  refine { hclosed with lines := by simp, parts := List.forall_mem_cons.mpr ⟨?_, hclosed.parts⟩ }
  intro node hnode
  refine hclosed.lines node (List.mem_reverse.mp ?_)
  rw [hpart]
  exact Option.mem_toList.mpr hnode

theorem Legible.listParts (h : level.Legible) {missing : Missing} {close : Span} {nodes : List Node}
    (hlist : listParts missing close level.parts.reverse = .ok nodes) : ∀ node ∈ nodes, node.Legible := by
  intro node hnode
  rcases listParts_eq_ok hlist with ⟨-, rfl⟩ | hparts
  · cases hnode
  · refine h.parts (some node) (List.mem_reverse.mp ?_) node rfl
    rw [hparts]
    exact List.mem_map_of_mem hnode

end Level

/-! ## Steps of the builder -/

namespace Builder

variable {b after : Builder}

theorem Legible.level (h : b.Legible) : b.level.Legible := by
  rcases b with ⟨root, _ | ⟨frame, outer⟩, expectation, previous, anonymous⟩
  · exact h.root
  · exact (h.frames frame (by simp)).level

theorem Legible.setLevel (h : b.Legible) {level : Level} (hlevel : level.Legible) :
    (b.setLevel level).Legible := by
  rcases b with ⟨root, _ | ⟨frame, outer⟩, expectation, previous, anonymous⟩
  · exact { h with root := hlevel }
  · obtain ⟨hframe, houter⟩ := List.forall_mem_cons.mp h.frames
    exact { h with frames := List.forall_mem_cons.mpr ⟨{ hframe with level := hlevel }, houter⟩ }

theorem Legible.tryLevel (h : b.Legible) {f : Level → Except BuildError Level}
    (hf : ∀ {level}, f b.level = .ok level → level.Legible) (htry : b.tryLevel f = .ok after) :
    after.Legible := by
  obtain ⟨level, hlevel, rfl⟩ := tryLevel_eq_ok htry
  exact h.setLevel (hf hlevel)

theorem Legible.push (h : b.Legible) (opener : Opener) (hopener : opener.Legible) (span : Span) :
    (b.push opener span).Legible :=
  { h with frames := List.forall_mem_cons.mpr ⟨⟨hopener, Level.legible_empty⟩, h.frames⟩ }

theorem Legible.expect (h : b.Legible) (expectation : Expectation)
    (hexpectation : expectation.Legible) :
    (b.expect expectation).Legible := { h with expectation := hexpectation }

theorem Legible.operand (h : b.Legible) {node : Node} (hnode : node.Legible) : (b.operand node).Legible :=
  h.setLevel (h.level.operand hnode)

theorem Legible.item (h : b.Legible) (item : Item) (hitem : item.Legible) :
    (b.mapLevel (·.item item)).Legible := h.setLevel (h.level.item item hitem)

theorem Legible.operator (h : b.Legible) (op : Operator) (hop : op.Legible) (base : Nat) (span : Span) :
    (b.operator op base span).Legible :=
  h.setLevel { h.level with run := List.forall_mem_cons.mpr ⟨hop, h.level.run⟩ }

theorem Legible.openParen (h : b.Legible) (previous : Previous) (span : Span) :
    (b.openParen previous span).Legible := by
  unfold Builder.openParen
  split
  · rename_i callee run hrun _
    obtain ⟨hcallee, hrest⟩ := List.forall_mem_cons.mp (hrun ▸ h.level.run)
    have hlevel : Level.Legible { b.level with run := run } := { h.level with run := hrest }
    exact (h.setLevel hlevel).push (.call callee) hcallee _
  · exact h.setLevel { h.level with }

theorem legible_headerItem {construct : Construct} {span close : Span} {parts : List (Option Node)}
    {item : Item} (hparts : ∀ part ∈ parts, ∀ node ∈ part, node.Legible)
    (h : headerItem construct span close parts = .ok item) : item.Legible := by
  unfold headerItem at h
  split at h
  · cases h
    exact hparts (some _) (by simp) _ rfl
  · cases h
    exact hparts (some _) (by simp) _ rfl
  · cases h
    exact hparts
  all_goals cases h

theorem legible_paramOf {node : Node} {param : Param} (hnode : node.Legible)
    (h : paramOf node = .ok param) :
    IsName param.name ∧ ∀ value ∈ param.default, value.Legible := by
  obtain ⟨hown, hparts⟩ := Node.legible_iff.mp hnode
  unfold paramOf at h
  split at h
  · cases h
    exact ⟨hown, by simp [Param.default]⟩
  · cases h
    refine ⟨hown.1, ?_⟩
    rintro _ ⟨⟩
    exact hparts _ (by simp [Node.parts])
  · cases h

theorem legible_mapM_paramOf {nodes : List Node} {params : List Param}
    (hnodes : ∀ node ∈ nodes, node.Legible) (h : nodes.mapM paramOf = .ok params) :
    LegibleParams params := by
  induction nodes generalizing params with
  | nil =>
    cases h
    simp [LegibleParams]
  | cons node rest ih =>
    obtain ⟨hnode, hrest⟩ := List.forall_mem_cons.mp hnodes
    rw [List.mapM_cons] at h
    obtain ⟨param, hparam, h⟩ := bind_eq_ok_iff.mp h
    obtain ⟨others, hothers, h⟩ := bind_eq_ok_iff.mp h
    obtain rfl := pure_eq_ok_iff.mp h
    exact List.forall_mem_cons.mpr ⟨legible_paramOf hnode hparam, ih hrest hothers⟩

theorem Legible.finishCall (h : b.Legible) {callee : Node} (hcallee : callee.Legible) {level : Level}
    (hlevel : level.Legible) {opening close : Span}
    (hfinish : b.finishCall callee opening close level = .ok after) : after.Legible := by
  obtain ⟨closed, hclosed, hfinish⟩ := bind_eq_ok_iff.mp hfinish
  obtain ⟨args, hargs, hfinish⟩ := bind_eq_ok_iff.mp hfinish
  obtain rfl := pure_eq_ok_iff.mp hfinish
  have hargs := (hlevel.closePart hclosed).listParts hargs
  have hcall : (Node.call callee args (opening.merge close)).Legible :=
    Node.legible_iff.mpr ⟨trivial, by simpa [Node.parts] using ⟨hcallee, hargs⟩⟩
  exact { h.operand hcall with }

theorem Legible.finishHeader (h : b.Legible) {construct : Construct} {level : Level}
    (hlevel : level.Legible) {opening close : Span}
    (hfinish : b.finishHeader construct opening close level = .ok after) : after.Legible := by
  obtain ⟨closed, hclosed, hfinish⟩ := bind_eq_ok_iff.mp hfinish
  obtain ⟨item, hitem, hfinish⟩ := bind_eq_ok_iff.mp hfinish
  obtain rfl := pure_eq_ok_iff.mp hfinish
  have hparts := (hlevel.closePart hclosed).parts
  have hitem := legible_headerItem (fun part hpart => hparts part (List.mem_reverse.mp hpart)) hitem
  exact { h.item item hitem with }

theorem Legible.finishParams (h : b.Legible) {name : String} {anonymous : Bool}
    (hname : IsFunctionName anonymous name) {level : Level} (hlevel : level.Legible)
    {opening close : Span}
    (hfinish : b.finishParams name anonymous opening close level = .ok after) : after.Legible := by
  obtain ⟨closed, hclosed, hfinish⟩ := bind_eq_ok_iff.mp hfinish
  obtain ⟨parts, hparts, hfinish⟩ := bind_eq_ok_iff.mp hfinish
  obtain ⟨params, hparams, hfinish⟩ := bind_eq_ok_iff.mp hfinish
  obtain rfl := pure_eq_ok_iff.mp hfinish
  have hparts := (hlevel.closePart hclosed).listParts hparts
  exact h.expect _ ⟨hname, legible_mapM_paramOf hparts hparams⟩

theorem Legible.finishBlock (h : b.Legible) {head : Option FunctionHead}
    (hhead : (Opener.block head).Legible) {level : Level} (hlevel : level.Legible)
    {opening close : Span} (hfinish : b.finishBlock head opening close level = .ok after) :
    after.Legible := by
  obtain ⟨closed, hclosed, hfinish⟩ := bind_eq_ok_iff.mp hfinish
  have hlines := (hlevel.closeLine hclosed).lines
  have hblock : (Node.block closed.lines.reverse (opening.merge close)).Legible :=
    Node.legible_iff.mpr ⟨trivial, by simpa [Node.parts] using hlines⟩
  cases head with
  | none =>
    obtain rfl := pure_eq_ok_iff.mp hfinish
    exact (h.item (.node _) hblock).expect .otherwise trivial
  | some head =>
    obtain ⟨node, hnode, hfinish⟩ := bind_eq_ok_iff.mp hfinish
    obtain rfl := pure_eq_ok_iff.mp hfinish
    exact h.operand (FunctionHead.legible_complete hnode (hhead head rfl) hblock)

/-- The innermost frame and what is left without it. -/
theorem Legible.frame (h : b.Legible) {frame : Frame} {outer : List Frame}
    (hframes : b.frames = frame :: outer) :
    frame.Legible ∧ Builder.Legible { b with frames := outer } := by
  obtain ⟨hframe, houter⟩ := List.forall_mem_cons.mp (hframes ▸ h.frames)
  exact ⟨hframe, { h with frames := houter }⟩

theorem Legible.closeParen (h : b.Legible) {span : Span} (hclose : b.closeParen span = .ok after) :
    after.Legible := by
  rcases closeParen_eq_ok hclose with
    ⟨opening, groups, -, rfl⟩ | ⟨opener, place, level, outer, -, hframes, hfinish⟩
  · exact h.setLevel { h.level with }
  · obtain ⟨hframe, hb⟩ := h.frame hframes
    rcases hfinish with
      ⟨callee, rfl, hfinish⟩ | ⟨construct, rfl, hfinish⟩ | ⟨name, anonymous, rfl, hfinish⟩
    · exact hb.finishCall hframe.opener hframe.level hfinish
    · exact hb.finishHeader hframe.level hfinish
    · exact hb.finishParams hframe.opener hframe.level hfinish

theorem Legible.closeBrace (h : b.Legible) {span : Span} (hclose : b.closeBrace span = .ok after) :
    after.Legible := by
  obtain ⟨head, place, level, outer, -, hframes, hfinish⟩ := closeBrace_eq_ok hclose
  obtain ⟨hframe, hb⟩ := h.frame hframes
  exact hb.finishBlock hframe.opener hframe.level hfinish

theorem Legible.semicolon (h : b.Legible) {span : Span} (hclose : b.semicolon span = .ok after) :
    after.Legible := by
  obtain ⟨-, ⟨hclose, -⟩ | ⟨hclose, -⟩⟩ := semicolon_eq_ok hclose
  · exact h.tryLevel h.level.closeLine hclose
  · exact h.tryLevel h.level.closePart hclose

theorem Legible.comma (h : b.Legible) {span : Span} (hclose : b.comma span = .ok after) :
    after.Legible :=
  h.tryLevel h.level.closePart (comma_eq_ok hclose).2.2

theorem Legible.equals (h : b.Legible) {span : Span} (hequals : b.equals span = .ok after) :
    after.Legible := by
  obtain ⟨name, var, target, -, hrun, rfl⟩ := equals_eq_ok hequals
  have htarget : (Node.ident name var target).Legible :=
    h.level.run (.operand _) (by rw [hrun]; simp)
  have hname : IsName name := (Node.legible_iff.mp htarget).1
  have hlevel : Level.Legible { b.level with run := [] } := { h.level with run := by simp }
  exact h.setLevel (hlevel.item (.assign name .plain target) hname)

theorem Legible.closeExpression (h : b.Legible) {level : Level}
    (hlevel : b.level.closeExpression = .ok level) : (b.setLevel level).Legible :=
  h.setLevel (h.level.closeExpression hlevel)

theorem Legible.openBrace (h : b.Legible) {span : Span} (hopen : b.openBrace span = .ok after) :
    after.Legible := by
  obtain ⟨level, hlevel, rfl⟩ := openBrace_eq_ok hopen
  exact (h.closeExpression hlevel).push (.block none) (by simp [Opener.Legible]) _

theorem Legible.start (h : b.Legible) (expectation : Expectation) (hexpectation : expectation.Legible)
    (hstart : b.start expectation = .ok after) : after.Legible := by
  obtain ⟨level, hlevel, rfl⟩ := start_eq_ok hstart
  exact (h.closeExpression hlevel).expect expectation hexpectation

theorem Legible.otherwise (h : b.Legible) {span : Span} (hotherwise : b.otherwise span = .ok after) :
    after.Legible := by
  obtain ⟨level, node, items, hlevel, -, rfl⟩ := otherwise_eq_ok hotherwise
  exact (h.closeExpression hlevel).item (.otherwise span) trivial

theorem Legible.declareBare (h : b.Legible) {decl : DeclKind} {name : String} {span : Span}
    (hname : IsName name) (hdeclare : b.declareBare decl name span = .ok after) : after.Legible := by
  have hnode : (Node.assign name .unresolved decl none (.null span) span).Legible := by
    refine Node.legible_iff.mpr ⟨⟨hname, by simp⟩, ?_⟩
    have hnull : (Node.null span).Legible := Node.legible_iff.mpr ⟨trivial, by simp [Node.parts]⟩
    simpa [Node.parts] using hnull
  obtain ⟨-, rfl⟩ := declareBare_eq_ok hdeclare
  exact h.item (.node _) hnode

/-! ## Tokens -/

theorem legible_leaf {node : Node} (h : node.OwnLegible) (hparts : node.parts = []) : node.Legible :=
  Node.legible_iff.mpr ⟨h, by simp [hparts]⟩

theorem mem_compounds {text : String} {op : BinaryOp} (h : Role.ofWord text = .compound op) :
    op ∈ BinaryOp.compounds := by
  have hfixed : ∀ entry ∈ Role.fixed, entry.2 ≠ .compound op := by
    cases op <;> decide
  rcases Role.spelled_ofWord text with hmem | ⟨hlookup, -⟩
  · exact absurd h (hfixed _ hmem)
  · unfold Role.ofWord at h
    rw [hlookup] at h
    dsimp only at h
    split at h
    · cases h
    · split at h
      · cases h
      · cases h
      · rename_i hcompound
        cases h
        exact List.mem_of_find?_eq_some hcompound
      · split at h <;> cases h

theorem isIdentifier_of_ofWord {text : String} (h : Role.ofWord text = .name) :
    isIdentifier text = true := by
  have hfixed : ∀ entry ∈ Role.fixed, entry.2 ≠ .name := by decide
  rcases Role.spelled_ofWord text with hmem | ⟨-, hspelled⟩
  · exact absurd h (hfixed _ hmem)
  · rw [h] at hspelled
    exact hspelled

theorem Legible.word (h : b.Legible) {previous : Previous} {text : String} {span : Span}
    (htext : (TokenKind.word text).Legible) (hword : b.word previous text span = .ok after) :
    after.Legible := by
  unfold Builder.word at hword
  generalize hrole : Role.ofWord text = role at hword
  cases role with
  | openParen =>
    cases hword
    exact h.openParen previous span
  | closeParen => exact h.closeParen hword
  | openBrace => exact h.openBrace hword
  | closeBrace => exact h.closeBrace hword
  | comma => exact h.comma hword
  | equals => exact h.equals hword
  | construct construct => exact h.start (.header construct span) trivial hword
  | otherwise => exact h.otherwise hword
  | function =>
    cases hword
    exact h.expect (.function text span) trivial
  | declare decl => exact h.start (.target decl span) trivial hword
  | minus =>
    dsimp only at hword
    split at hword
    · cases hword
      exact h.operator (.binary .sub) trivial _ _
    · cases hword
      exact h.operator (.unary .neg) trivial _ _
  | ret =>
    cases hword
    exact h.operator .ret trivial _ _
  | unary op =>
    cases hword
    exact h.operator (.unary op) trivial _ _
  | binary op =>
    cases hword
    exact h.operator (.binary op) trivial _ _
  | compound op =>
    cases hword
    exact h.operator (.compound op) (mem_compounds hrole) _ _
  | name =>
    cases hword
    exact h.operand (legible_leaf (htext (isIdentifier_of_ofWord hrole)) rfl)
  | breakLoop | continueLoop | bool _ | null =>
    cases hword
    exact h.operand (legible_leaf trivial rfl)
  | unsupported => cases hword
  | unknown => cases hword

theorem Legible.handle (h : b.Legible) {previous : Previous} {token : Token}
    (htoken : token.kind.Legible) (hhandle : b.handle previous token = .ok after) : after.Legible := by
  rcases token with ⟨kind, span⟩
  cases kind with
  | float bits =>
    cases hhandle
    exact h.operand (legible_leaf htoken rfl)
  | int | literal =>
    cases hhandle
    exact h.operand (legible_leaf trivial rfl)
  | separator => exact h.semicolon hhandle
  | eof =>
    cases hhandle
    exact h
  | word text => exact h.word htoken hhandle

theorem isName_of_nameOf? {token : Token} {name : String} (htoken : token.kind.Legible)
    (h : nameOf? token = some name) : IsName name := by
  obtain ⟨hkind, hname⟩ := nameOf?_eq_some h
  rw [hkind] at htoken
  exact htoken hname

/-- A step keeps a builder legible. -/
theorem Legible.feed (h : b.Legible) {token : Token} (htoken : token.kind.Legible)
    (hfeed : b.feed token = .ok after) : after.Legible := by
  have hexpectation := h.expectation
  have h : (b.past token).Legible := { h with expectation := trivial }
  cases fed hfeed with
  | handled _ hhandle => exact h.handle htoken hhandle
  | @header construct => exact h.push (.header construct) trivial _
  | name _ hname hlevel => exact (h.closeExpression hlevel).expect _ (isName_of_nameOf? htoken hname)
  | unnamed =>
    have h : Builder.Legible { b.past token with anonymous := b.anonymous + 1 } := { h with }
    exact h.push (.params b.anonymousName true) ⟨b.anonymous, rfl⟩ _
  | @params name _ _ hwaits =>
    rw [hwaits] at hexpectation
    exact h.push (.params name false) hexpectation _
  | @value head _ hwaits =>
    rw [hwaits] at hexpectation
    refine h.push (.block (some head)) ?_ _
    rintro _ ⟨⟩
    exact hexpectation
  | @body head _ hwaits =>
    rw [hwaits] at hexpectation
    exact (h.item (.define head) hexpectation).push (.block none) (by simp [Opener.Legible]) _
  | target _ hname => exact h.expect _ (isName_of_nameOf? htoken hname)
  | @assigned decl name span hwaits =>
    rw [hwaits] at hexpectation
    exact h.item (.assign name decl span) hexpectation
  | declared hwaits _ hdeclared hhandle =>
    rw [hwaits] at hexpectation
    exact (h.declareBare hexpectation hdeclared).handle htoken hhandle
  | branch _ _ hhandle => exact h.handle htoken hhandle
  | ended _ _ hlevel hhandle =>
    exact (h.setLevel (h.level.closeLine hlevel)).handle htoken hhandle

/-- So does a run. -/
theorem Legible.foldlM_feed (h : b.Legible) {tokens : List Token}
    (htokens : ∀ token ∈ tokens, token.kind.Legible)
    (hfeed : tokens.foldlM Builder.feed b = .ok after) : after.Legible := by
  induction tokens generalizing b with
  | nil =>
    cases hfeed
    exact h
  | cons token rest ih =>
    obtain ⟨htoken, hrest⟩ := List.forall_mem_cons.mp htokens
    rw [List.foldlM_cons] at hfeed
    obtain ⟨next, hnext, hfeed⟩ := bind_eq_ok_iff.mp hfeed
    exact ih (h.feed htoken hnext) hrest hfeed

theorem Legible.settle (h : b.Legible) {ending : Option Span} (hsettle : b.settle ending = .ok after) :
    after.Legible := by
  rcases settle_eq_ok hsettle with ⟨-, rfl⟩ | ⟨decl, name, span, hwaits, hdeclared⟩ | ⟨-, hclosed⟩
  · exact h
  · have hexpectation := h.expectation
    rw [hwaits] at hexpectation
    exact h.declareBare hexpectation hdeclared
  · exact h.tryLevel h.level.closeLine hclosed

end Builder

/-- **What is built from legible tokens is legible.** -/
theorem Program.ofTokens_legible {tokens : List Token} {program : Program}
    (htokens : ∀ token ∈ tokens, token.kind.Legible) (h : Program.ofTokens tokens = .ok program) :
    program.Everywhere Node.OwnLegible := by
  obtain ⟨b, hb, h⟩ := bind_eq_ok_iff.mp h
  obtain ⟨settled, hsettled, h⟩ := bind_eq_ok_iff.mp h
  have hstart : Builder.Legible {} := ⟨Level.legible_empty, by simp, trivial⟩
  have hb := hstart.foldlM_feed (fun token htoken => htokens token (List.takeWhile_subset _ htoken)) hb
  split at h
  · cases h
  · cases h
  · obtain ⟨root, hroot, h⟩ := bind_eq_ok_iff.mp h
    obtain rfl := pure_eq_ok_iff.mp h
    intro node hnode
    exact ((hb.settle hsettled).root.closeLine hroot).lines node (List.mem_reverse.mp hnode)

/-! ## The tokens of a source text -/

theorem Decimal.ofDecimal_le (digits places : Nat) :
    (ofDecimal digits places).toNat ≤ infinityBits := by
  have hle : nearestBits digits (tenPow places) ≤ infinityBits := by
    unfold nearestBits
    split
    · exact Nat.zero_le _
    · exact Nat.min_le_left _ _
  have hlt : infinityBits < 2 ^ 64 := by decide
  have hmod : (ofDecimal digits places).toNat = nearestBits digits (tenPow places) :=
    Nat.mod_eq_of_lt (by omega)
  rw [hmod]
  exact hle

theorem TokenKind.Spelled.legible {kind : TokenKind} {text : List Char} (h : kind.Spelled text) :
    kind.Legible := by
  obtain ⟨lexeme, c, rest, rfl, hspells, hkind⟩ := h
  have hkind := hkind .nowhere
  cases hspells with
  | name hc hrest =>
    obtain rfl : _ = kind := Option.some.inj (Except.ok.inj hkind)
    intro _
    refine ⟨⟨c, by simp, hc⟩, ?_⟩
    rw [String.toList_ofList]
    refine List.forall_mem_cons.mpr ⟨?_, hrest⟩
    rw [continuesName, hc, Bool.true_or]
  | symbol hmem htext =>
    obtain rfl : _ = kind := Option.some.inj (Except.ok.inj hkind)
    intro hidentifier
    obtain ⟨-, -, -, -, -, hletter⟩ := Lexeme.starts_of_mem_symbols hmem (by rw [htext]; rfl)
    simp [isIdentifier, hletter] at hidentifier
  | decimal | fraction =>
    obtain rfl : _ = kind := Option.some.inj (Except.ok.inj hkind)
    exact Decimal.ofDecimal_le _ _
  | separator =>
    obtain rfl : _ = kind := Option.some.inj (Except.ok.inj hkind)
    trivial
  | integer =>
    unfold Token.ofLexeme at hkind
    dsimp only at hkind
    split at hkind
    · obtain rfl : _ = kind := Option.some.inj (Except.ok.inj hkind)
      trivial
    · cases hkind
  | string =>
    obtain ⟨inside, -, hkind⟩ := map_eq_ok_iff.mp hkind
    obtain rfl : _ = kind := Option.some.inj hkind
    trivial

/-- **The tokens of a source text are legible.** -/
theorem Token.scan_legible {source : String} {tokens : List Token}
    (h : Token.scan source = .ok tokens) : ∀ token ∈ tokens, token.kind.Legible := by
  obtain ⟨live, last, rfl, hlast, hlive⟩ := Token.scanFrom_spelled [] source.toList 0 h
  intro token htoken
  rcases List.mem_append.mp htoken with htoken | htoken
  · exact (hlive token htoken).2.legible
  · rw [List.mem_singleton.mp htoken, hlast]
    trivial

end SlotScript
