import SlotScript.Proofs.Flat.Level
import SlotScript.Proofs.Tree.Conservation

/-!
# The stack of frames

The frames of a machine against the levels of a builder. The machine's last frame is the program's
level; the others belong to the builder's frames, one each.

In one place the lists differ. The head of a function waits on top of the items of its level until the
body is complete. If the function has a name, the head becomes an item when the body starts. If not,
the function is going to be an operand, and what is loose stays below its head: a builder keeps such a
head with the frame of the body instead. `HeldPending` allows for one head on top of a level.

Everything else on a level can be changed where it stands: `HeldFrames.zoom` takes out the innermost
level and puts another one in its place.
-/

namespace SlotScript.Flat

/-! ## Changes of a level -/

section Changes

variable {a : Arena} {h h' : Holding} {frame : Frame} {level : Level}

theorem HeldLevel.operand (hlevel : HeldLevel a h frame level) {link : Nat} {node : Node}
    (hlink : a.Held h' link node) :
    HeldLevel a (h' + h) (frame.push (.run (.operand link))) (level.operand node) := by
  obtain ⟨hrun, hitems, hlines, hparts⟩ := hlevel
  simp only [← add_assoc]
  exact ⟨.cons (.operand hlink) hrun, hitems, hlines, hparts⟩

theorem HeldLevel.operator (hlevel : HeldLevel a h frame level) (op : Operator) (base : Nat)
    (span : Span) :
    HeldLevel a (.due + h)
      (frame.push (.run (.operator op (effectivePrecedence base frame.groups.length) span)))
      (level.operator op base span) := by
  obtain ⟨hrun, hitems, hlines, hparts⟩ := hlevel
  simp only [← add_assoc]
  exact ⟨.cons (.operator ..) hrun, hitems, hlines, hparts⟩

/-- An item goes on top of a level where nothing is loose. -/
theorem HeldLevel.item (hlevel : HeldLevel a h frame level) {item : Item} {item' : SlotScript.Item}
    (hitem : HeldItem a h' item item') (hrun : level.run = []) :
    HeldLevel a (h' + h) (frame.push item) (level.item item') := by
  obtain @⟨hr, hi, hl, hp, kind, span, loose, run, items, items', lines, lines', parts, parts', groups,
    hloose, hitems, hlines, hparts⟩ := hlevel
  obtain rfl : run = [] := hrun
  cases hloose
  have heq : h' + (0 + hi + hl + hp) = 0 + (h' + hi) + hl + hp := by abel
  rw [heq]
  exact ⟨.nil, .cons hitem hitems, hlines, hparts⟩

theorem HeldLevel.groups (hlevel : HeldLevel a h frame level) (groups : List Span) :
    HeldLevel a h { frame with groups := groups } { level with groups := groups } := by
  obtain ⟨hrun, hitems, hlines, hparts⟩ := hlevel
  exact ⟨hrun, hitems, hlines, hparts⟩

theorem heldLevel_empty (a : Arena) (kind : FrameKind) (span : Span) :
    HeldLevel a 0 { kind := kind, span := span } {} := by
  have hempty : HeldLevel a (0 + 0 + 0 + 0)
      ⟨kind, span, List.map Item.run [] ++ [], [], [], []⟩ ⟨[], [], [], [], []⟩ :=
    ⟨.nil, .nil, .nil, .nil⟩
  simpa using hempty

/-- The head of a function without a name is not one of the items of a level. -/
theorem HeldLevel.items_ne (hlevel : HeldLevel a h frame level) (name : String) (params : Range)
    (span : Span) (items : List Item) : frame.items ≠ .define name true params span :: items := by
  obtain @⟨hr, hi, hl, hp, kind, span', loose, run, items, items', lines, lines', parts, parts', groups,
    hloose, hitems, hlines, hparts⟩ := hlevel
  intro heq
  cases loose with
  | cons item loose => cases heq
  | nil =>
    cases hitems with
    | nil => cases heq
    | cons hitem _ => cases hitem <;> cases heq

/-- Where nothing is loose, a finished expression is on top of both stacks or of none. -/
theorem HeldLevel.node_or_not (hlevel : HeldLevel a h frame level) (hrun : level.run = []) :
    (∃ link node items items', frame.items = .node link :: items ∧
      level.items = .node node :: items') ∨
    (∀ link items, frame.items ≠ .node link :: items) ∧
      ∀ node items, level.items ≠ .node node :: items := by
  obtain @⟨hr, hi, hl, hp, kind, span, loose, run, items, items', lines, lines', parts, parts', groups,
    hloose, hitems, hlines, hparts⟩ := hlevel
  obtain rfl : run = [] := hrun
  cases hloose
  cases hitems with
  | nil => exact .inr ⟨by simp, by simp⟩
  | cons hitem _ =>
    cases hitem
    case node => exact .inl ⟨_, _, _, _, rfl, rfl⟩
    all_goals exact .inr ⟨by simp, by simp⟩

/-- What stands on top of the items of a level. -/
theorem HeldLevel.top (hlevel : HeldLevel a h frame level) :
    (level.run = [] ∧ ∀ item items, frame.items = item :: items → item.isRun = false) ∨
      (∃ op p span run items, level.run = .operator op p span :: run ∧
        frame.items = .run (.operator op p span) :: items) ∨
      ∃ h₁ h₂ link node run items, level.run = .operand node :: run ∧
        frame.items = .run (.operand link) :: items ∧ h = h₁ + h₂ ∧ a.Held h₁ link node ∧
        HeldLevel a h₂ { frame with items := items } { level with run := run } := by
  obtain @⟨hr, hi, hl, hp, kind, span, loose, run, items, items', lines, lines', parts, parts', groups,
    hloose, hitems, hlines, hparts⟩ := hlevel
  cases hloose with
  | nil =>
    refine .inl ⟨rfl, fun item rest heq => ?_⟩
    cases hitems with
    | nil => cases heq
    | cons hitem _ =>
      obtain ⟨rfl, -⟩ := List.cons.inj heq
      exact hitem.isRun_eq_false
  | @cons h₁ h₂ item item' loose run hitem hloose =>
    cases hitem with
    | operator op p span => exact .inr (.inl ⟨op, p, span, run, _, rfl, rfl⟩)
    | operand hlink =>
      refine .inr (.inr ⟨h₁, h₂ + hi + hl + hp, _, _, run, _, rfl, rfl, by abel, hlink, ?_⟩)
      exact ⟨hloose, hitems, hlines, hparts⟩

end Changes

/-! ## Parts of a list -/

section Parts

variable {a : Arena} {h : Holding}

theorem listParts_refines (missing : Missing) (close : Span) {parts : List (Option Nat)}
    {parts' : List (Option Node)} (hparts : Each (HeldOption a) h parts parts') :
    Refines (Each a.Held h) (Frame.listParts missing close parts)
      (Level.listParts missing close parts') := by
  by_cases hnone : parts = [none]
  · subst hnone
    rcases hparts with _ | ⟨⟨_⟩, ⟨_⟩⟩
    exact .ok (by simpa using Each.nil)
  · have hnone' : parts' ≠ [none] := by
      rintro rfl
      rcases hparts with _ | ⟨⟨_⟩, ⟨_⟩⟩
      exact hnone rfl
    rw [Level.listParts_eq_mapM missing close hnone', Frame.listParts]
    · clear hnone hnone'
      induction hparts with
      | nil => exact .ok .nil
      | cons hpart _ ih =>
        rw [List.mapM_cons, List.mapM_cons]
        cases hpart with
        | none => exact .fault _
        | some hlink => exact ih.bind fun links nodes hlinks => .ok (.cons hlink hlinks)
    · exact hnone

/-- The link to the parameter's expression is not needed any more, but that to its default is. -/
theorem formalOf_refines {link : Nat} {node : Node} (hlink : a.Held h link node) :
    Refines (fun formal param => ∃ h', a.HeldFormal h' formal param ∧ h' + (0, 1) ≤ h)
      (Machine.formalOf a link) (Builder.paramOf node) := by
  obtain ⟨cell, hentry, hlook⟩ := hlink.entry
  rw [Machine.formalOf, hentry, ok_bind]
  rcases hlook with ⟨name, var, span, rfl, rfl⟩ | ⟨range, body, span, rfl, rfl⟩ |
    ⟨target, var, j, value, span, rfl, hj, rfl⟩ | ⟨hcell, hnode⟩
  · refine .ok ⟨0, ⟨rfl, rfl⟩, ?_⟩
    rw [hlink.2, zero_add]
    exact ⟨Multiset.zero_le _, Nat.le_refl 1⟩
  · exact .fault _
  · refine .ok ⟨(↑(a.cells j), 0), ⟨?_, ?_⟩, ?_⟩
    · simp [Formal.param?, optional?, hj, Node.span]
    · simp
    · rw [hlink.cells_eq hentry rfl]
      constructor
      · simpa using (List.sublist_cons_self link (a.cells j)).subperm
      · exact Nat.le_refl 1
  · have hfault : Builder.paramOf node = .error { fault := .invalidParameter, span := node.span } := by
      unfold Builder.paramOf
      split
      · cases hnode
      · cases hnode
      · rfl
    rw [hfault]
    cases cell
    case ident => cases hcell
    case assign target var decl op value =>
      cases decl <;> cases op
      case plain.none => cases hcell
      all_goals exact .fault _
    all_goals exact .fault _

theorem mapM_formalOf_refines {links : List Nat} {nodes : List Node}
    (hlinks : Each a.Held h links nodes) :
    Refines (fun formals params => ∃ h', Each a.HeldFormal h' formals params ∧
      h' + (0, formals.length) ≤ h) (links.mapM (Machine.formalOf a))
      (nodes.mapM Builder.paramOf) := by
  induction hlinks with
  | nil => exact .ok ⟨0, .nil, le_refl _⟩
  | cons hlink _ ih =>
    rw [List.mapM_cons, List.mapM_cons]
    refine (formalOf_refines hlink).bind ?_
    rintro formal param ⟨h₁, hformal, hle⟩
    refine ih.bind ?_
    rintro formals params ⟨h₂, hformals, hle'⟩
    refine .ok ⟨h₁ + h₂, .cons hformal hformals, ?_⟩
    have hlength : ((0, (formal :: formals).length) : Holding) = (0, 1) + (0, formals.length) :=
      Prod.ext (add_zero 0).symm (Nat.add_comm _ _)
    rw [hlength, add_add_add_comm]
    exact add_le_add hle hle'

/-- The head of a construct is due a node, and it holds the parts of its header. -/
theorem headerItem_refines (construct : Construct) (span close : Span) {parts : List (Option Nat)}
    {parts' : List (Option Node)} (hparts : Each (HeldOption a) h parts parts') :
    Refines (HeldItem a (.due + h)) (Machine.headerItem construct span close parts)
      (Builder.headerItem construct span close parts') := by
  rcases hparts with _ | ⟨hfirst, _ | ⟨hsecond, _ | ⟨hthird, _ | ⟨hfourth, hmore⟩⟩⟩⟩
  · cases construct <;> exact .fault _
  · rw [add_zero]
    cases hfirst with
    | none => cases construct <;> exact .fault _
    | some hcond =>
      cases construct with
      | branch => exact .ok (.branch span hcond)
      | whileLoop => exact .ok (.whileLoop span hcond)
      | forLoop => exact .fault _
  · cases construct <;> cases hfirst <;> exact .fault _
  · cases construct with
    | branch => cases hfirst <;> exact .fault _
    | whileLoop => cases hfirst <;> exact .fault _
    | forLoop =>
      have hitem := HeldItem.forLoop span hfirst hsecond hthird
      exact .ok (by simpa only [add_zero, add_assoc] using hitem)
  · cases construct with
    | branch => cases hfirst <;> exact .fault _
    | whileLoop => cases hfirst <;> exact .fault _
    | forLoop =>
      show Refines _ (fail { fault := .invalidHeader (_ + 4), span := span.merge close })
        (.error { fault := .invalidHeader (_ + 4), span := span.merge close })
      rw [hmore.length_eq]
      exact .fault _

end Parts

/-! ## Frames -/

/-- What a frame is opened for holds its callee, and a call or a block is due a node. -/
inductive HeldKind (a : Arena) : Holding → FrameKind → Opener → Prop
  | block (head : Option FunctionHead) : HeldKind a .due .block (.block head)
  | call {h : Holding} {callee : Nat} {node : Node} : a.Held h callee node →
    HeldKind a (.due + h) (.call callee) (.call node)
  | header (construct : Construct) : HeldKind a 0 (.header construct) (.header construct)
  | params (name : String) (anonymous : Bool) :
    HeldKind a 0 (.params name anonymous) (.params name anonymous)

theorem HeldKind.grows {a a' : Arena} {h : Holding} {kind : FrameKind} {opener : Opener}
    (hkind : HeldKind a h kind opener) (hg : a.Grows a') : HeldKind a' h kind opener := by
  cases hkind with
  | block head => exact .block head
  | call hcallee => exact .call (hcallee.grows hg)
  | header construct => exact .header construct
  | params name anonymous => exact .params name anonymous

theorem HeldKind.opener_eq {a : Arena} {h : Holding} {kind : FrameKind} {opener : Opener}
    (hkind : HeldKind a h kind opener) : kind.opener = opener.delimiter := by
  cases hkind <;> rfl

/-- A level, with or without the head of a function on top of it. What is loose stays below the head
only if the function has no name. -/
inductive HeldPending (a : Arena) : Option (FunctionHead × Bool) → Holding → Frame → Level → Prop
  | none {h : Holding} {frame : Frame} {level : Level} : HeldLevel a h frame level →
    HeldPending a none h frame level
  | some {h hp : Holding} {frame : Frame} {level : Level} {range : Range} (head : FunctionHead)
    (anonymous : Bool) : a.HeldParams hp range head.params → HeldLevel a h frame level →
    (anonymous = false → level.run = []) →
    HeldPending a (some (head, anonymous)) (.due + hp + h)
      (frame.push (.define head.name anonymous range head.span)) level

theorem HeldPending.grows {a a' : Arena} {pending : Option (FunctionHead × Bool)} {h : Holding}
    {frame : Frame} {level : Level} (hlevel : HeldPending a pending h frame level)
    (hg : a.Grows a') : HeldPending a' pending h frame level := by
  cases hlevel with
  | none hlevel => exact .none (hlevel.grows hg)
  | some head anonymous hparams hlevel hrun =>
    exact .some head anonymous (hparams.grows hg) (hlevel.grows hg) hrun

theorem HeldPending.level {a : Arena} {h : Holding} {frame : Frame} {level : Level}
    (hlevel : HeldPending a Option.none h frame level) : HeldLevel a h frame level := by
  cases hlevel with
  | none hlevel => exact hlevel

/-- The head on top of the level around a frame. -/
def pendingOf : Opener → Option (FunctionHead × Bool)
  | .block (some head) => some (head, true)
  | _ => none

/-- The head on top of the innermost level. -/
def pendingIn : Expectation → Option (FunctionHead × Bool)
  | .body head anonymous _ => some (head, anonymous)
  | _ => none

/-- The frames of a machine hold what the levels of a builder stand for. The head of a function may be
pending on the innermost level. -/
inductive HeldFrames (a : Arena) (root : Level) :
    Option (FunctionHead × Bool) → Holding → List Frame → List SlotScript.Frame → Prop
  | root {pending : Option (FunctionHead × Bool)} {h : Holding} {frame : Frame} :
    frame.kind = .root → HeldPending a pending h frame root →
    HeldFrames a root pending h [frame] []
  | cons {pending : Option (FunctionHead × Bool)} {hk hl h : Holding} {frame : Frame}
    {opener : Opener} {level : Level} {outer : List Frame} {outer' : List SlotScript.Frame} :
    HeldKind a hk frame.kind opener → HeldPending a pending hl frame level →
    (opener.waits = true → (Builder.levelOf root outer').run = []) →
    HeldFrames a root (pendingOf opener) h outer outer' →
    HeldFrames a root pending (hl + (hk + h)) (frame :: outer) (⟨opener, frame.span, level⟩ :: outer')

section Frames

variable {a a' : Arena} {pending pending' : Option (FunctionHead × Bool)} {h hl : Holding}
  {frame : Frame} {outer : List Frame} {b : Builder}

theorem HeldFrames.grows {root : Level} {frames : List Frame} {frames' : List SlotScript.Frame}
    (hframes : HeldFrames a root pending h frames frames') (hg : a.Grows a') :
    HeldFrames a' root pending h frames frames' := by
  induction hframes with
  | root hkind hlevel => exact .root hkind (hlevel.grows hg)
  | cons hkind hlevel hrun _ ih => exact .cons (hkind.grows hg) (hlevel.grows hg) hrun ih

theorem HeldFrames.length_eq {root : Level} {frames : List Frame} {frames' : List SlotScript.Frame}
    (hframes : HeldFrames a root pending h frames frames') : frames.length = frames'.length + 1 := by
  induction hframes with
  | root _ _ => rfl
  | cons _ _ _ _ ih => rw [List.length_cons, List.length_cons, ih]

/-- What is around the innermost level. -/
def Around (a : Arena) (h : Holding) (frame : Frame) (outer : List Frame) (b : Builder) : Prop :=
  ∀ {a' : Arena} {pending : Option (FunctionHead × Bool)} {hl : Holding} {frame' : Frame}
    {level : Level}, a.Grows a' → HeldPending a' pending hl frame' level → frame.Same frame' →
    HeldFrames a' (b.setLevel level).root pending (hl + h) (frame' :: outer)
      (b.setLevel level).frames

/-- The innermost level can be taken out and another one put in its place. -/
theorem HeldFrames.zoom {frames : List Frame}
    (hframes : HeldFrames a b.root pending h frames b.frames) :
    ∃ frame outer hl ho, frames = frame :: outer ∧ h = hl + ho ∧
      HeldPending a pending hl frame b.level ∧ Around a ho frame outer b := by
  rcases b with ⟨root, bframes, expectation, previous, anonymous⟩
  cases hframes with
  | @root _ h frame hkind hlevel =>
    refine ⟨frame, [], h, 0, rfl, (add_zero h).symm, hlevel, ?_⟩
    intro a' pending' hl frame' level hg hlevel' hsame
    rw [add_zero]
    exact .root (hsame.1.trans hkind) hlevel'
  | @cons _ hk hl h frame opener level outer outer' hkind hlevel hrun houter =>
    refine ⟨frame, outer, hl, hk + h, rfl, rfl, hlevel, ?_⟩
    intro a' pending' hl' frame' level' hg hlevel' hsame
    show HeldFrames a' root pending' (hl' + (hk + h)) (frame' :: outer)
      (⟨opener, frame.span, level'⟩ :: outer')
    rw [← hsame.2]
    exact .cons (hsame.1 ▸ hkind.grows hg) hlevel' hrun (houter.grows hg)

end Frames

end SlotScript.Flat
