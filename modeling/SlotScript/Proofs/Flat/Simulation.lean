import SlotScript.Proofs.Flat.Track

/-!
# Every token does the same

One lemma for each kind of token: the machine that tracks a builder handles the token without a crash,
stops with the builder's fault if the builder does, and tracks the builder afterwards. Where the
machine looks ahead, the builder settles its expectation.
-/

namespace SlotScript.Flat

/-- The machine tracks the builder, which expects nothing, and has taken no further token. -/
structure Stays (m m' : Machine) (b : Builder) : Prop where
  tracks : Tracks 0 m' b
  rest : m'.rest = m.rest
  expectation : b.expectation = .any

/-- The builder expects nothing, or a body, and then the brace of one comes next. -/
def Ready (b : Builder) (tokens : List Token) : Prop :=
  b.expectation = .any ∨ (∃ head anonymous close, b.expectation = .body head anonymous close) ∧
    wordAhead tokens = some "\x7b"

/-- The machine tracks the builder that has settled its expectation, and the same tokens are still to
come. -/
structure Settled (m m' : Machine) (p : Builder × List Token) : Prop where
  tracks : Tracks 0 m' p.1
  rest : m'.rest = p.2
  length : p.2.length ≤ m.rest.length
  ready : Ready p.1 p.2

section

variable {m m' : Machine} {b b' : Builder}

theorem Stays.settled (h : Stays m m' b) : Settled m m' (b, m.rest) :=
  ⟨h.tracks, h.rest, Nat.le_refl _, .inl h.expectation⟩

theorem Stays.of_rest {m₀ : Machine} (h : Stays m m' b) (hrest : m.rest = m₀.rest) : Stays m₀ m' b :=
  ⟨h.tracks, h.rest.trans hrest, h.expectation⟩

theorem Settled.mono {m₀ : Machine} {p : Builder × List Token} (h : Settled m m' p)
    (hle : m.rest.length ≤ m₀.rest.length) : Settled m₀ m' p :=
  ⟨h.tracks, h.rest, h.length.trans hle, h.ready⟩

/-- A builder that expects nothing has nothing to settle. -/
theorem Refines.settled {x : Except Halt Machine} {y : Except BuildError Builder}
    (h : Refines (Stays m) x y) : Refines (Settled m) x (y >>= (·.resolve m.rest)) := by
  cases h with
  | fault e => exact .fault e
  | @ok m' b hstays =>
    rw [ok_bind, Builder.resolve, hstays.expectation]
    exact .ok hstays.settled

theorem Tracks.stacked_any {spare : Holding} (ht : Tracks spare m b) (hb : b.expectation = .any) :
    Stacked spare none m b := by
  have hs := ht.stacked
  rwa [hb] at hs

theorem Tracks.read_lt {spare : Holding} (ht : Tracks spare m b) : m.read < tokenLimit :=
  Nat.lt_of_le_of_lt (Nat.le_add_right _ _) ht.limit

theorem Stacked.forget {spare spare' : Holding} {pending : Option (FunctionHead × Bool)}
    (hs : Stacked (spare' + spare) pending m b) : Stacked spare pending m b := by
  obtain ⟨h, hframes, hc⟩ := hs
  exact ⟨h, hframes, (hc.of_eq (by abel) : m.arena.Covers m.read (spare' + _)).forget⟩

theorem Tracks.forget {spare spare' : Holding} (ht : Tracks (spare' + spare) m b) : Tracks spare m b :=
  ⟨ht.stacked.forget, ht.preceded, ht.anonymous, ht.limit⟩

theorem Stays.of_stacked {spare : Holding} (ht : Tracks spare m b) (hm : Restacked m m')
    {spare' : Holding} (hs : Stacked spare' none m' b') (hexpectation : b'.expectation = .any)
    (hprevious : b'.previous = b.previous) (hanonymous : b'.anonymous = b.anonymous) :
    Stays m m' b' := by
  rw [← add_zero spare'] at hs
  replace hs := hs.forget
  refine ⟨ht.restack hm ?_ hprevious hanonymous, ?_, hexpectation⟩
  · rwa [hexpectation]
  · obtain ⟨a, frames, rfl⟩ := hm
    rfl

theorem mapTop_refines {spare : Holding} (ht : Tracks spare m b) (hb : b.expectation = .any)
    {f : Frame → Frame} {g : Level → Level}
    (hfg : ∀ {hl frame}, HeldLevel m.arena hl frame b.level →
      ∃ hl', HeldLevel m.arena hl' (f frame) (g b.level) ∧ frame.Same (f frame) ∧
        hl' ≤ hl + spare) :
    Refines (Stays m) (m.mapTop f) (.ok (b.mapLevel g)) := by
  obtain ⟨m', hm', hm, hs⟩ : ∃ m', m.mapTop f = .ok m' ∧ Restacked m m' ∧
      Stacked 0 none m' (b.mapLevel g) := (ht.stacked_any hb).mapTop fun hlevel => by
    obtain ⟨hl', hlevel', hsame, hle⟩ := hfg hlevel.level
    exact ⟨hl', .none hlevel', hsame, by rwa [add_zero]⟩
  rw [hm']
  exact .ok (.of_stacked ht hm hs (by simpa using hb) (by simp) (by simp))

/-! ## Operands and operators -/

theorem operand_refines (ht : Tracks .due m b) (hb : b.expectation = .any) {cell : Cell} {span : Span}
    {node : Node} (hlinks : cell.links? m.arena = some [])
    (hnode : Entry.node? m.arena m.arena.tree? ⟨cell, span⟩ = some node) :
    Refines (Stays m) (m.operand cell span) (.ok (b.operand node)) := by
  have hs : Stacked (.due + 0 + 0) none m b := by
    rw [add_zero, add_zero]
    exact ht.stacked_any hb
  refine (hs.operand_refines ht.read_lt hlinks hnode rfl).imp ?_
  rintro m' _ ⟨hm, hs', rfl⟩
  exact .of_stacked ht hm hs' (by simpa [Builder.operand] using hb) (by simp [Builder.operand])
    (by simp [Builder.operand])

theorem operator_refines (ht : Tracks .due m b) (hb : b.expectation = .any) (op : Operator)
    (base : Nat) (span : Span) :
    Refines (Stays m) (m.operator op base span) (.ok (b.operator op base span)) :=
  mapTop_refines ht hb fun hlevel =>
    ⟨_, hlevel.operator op base span, ⟨rfl, rfl⟩, (add_comm _ _).le⟩

/-! ## Delimiters -/

theorem openGroup_refines (ht : Tracks .due m b) (hb : b.expectation = .any) (span : Span) :
    Refines (Stays m) (m.mapTop fun frame => { frame with groups := span :: frame.groups })
      (.ok (b.mapLevel fun level => { level with groups := span :: level.groups })) :=
  mapTop_refines ht hb fun hlevel =>
    ⟨_, by rw [hlevel.groups_eq]; exact hlevel.groups _, ⟨rfl, rfl⟩, le_self_add⟩

/-- The innermost level and what is around it. -/
theorem Tracks.zoom {spare : Holding} (ht : Tracks spare m b) (hb : b.expectation = .any) :
    ∃ frame outer hl ho, m.frames = frame :: outer ∧ HeldLevel m.arena hl frame b.level ∧
      Around m.arena ho frame outer b ∧ m.arena.Covers m.read (hl + (ho + spare)) := by
  obtain ⟨h, hframes, hc⟩ := ht.stacked_any hb
  obtain ⟨frame, outer, hl, ho, houter, rfl, hlevel, haround⟩ := hframes.zoom
  exact ⟨frame, outer, hl, ho, houter, hlevel.level, haround, hc.of_eq (by abel)⟩

theorem openParen_refines (ht : Tracks .due m b) (hb : b.expectation = .any) {previous : Previous}
    (hcallable : m.followsCallable = previous.isCallable) (span : Span) :
    Refines (Stays m) (m.openParen span) (.ok (b.openParen previous span)) := by
  obtain ⟨frame, outer, hl, ho, houter, hlevel, haround, hc⟩ := ht.zoom hb
  have hgroup := openGroup_refines ht hb span
  rw [Machine.openParen, Machine.top, houter, ok_bind]
  unfold Builder.openParen
  rcases hlevel.top with ⟨hrun, hitems⟩ | ⟨op, p, at', run, items, hrun, hitems⟩ |
    ⟨h₁, h₂, callee, node, run, items, hrun, hitems, rfl, hcallee, hlevel'⟩
  · rw [hrun]
    cases hframe : frame.items with
    | nil => exact hgroup
    | cons item items =>
      have hitem := hitems item items hframe
      cases item with
      | run item => cases hitem
      | _ => exact hgroup
  · rw [hrun, hitems]
    exact hgroup
  · rw [hrun, hitems, hcallable]
    cases hcall : previous.isCallable with
    | false => exact hgroup
    | true =>
      simp only [Machine.mapTop, houter, ok_bind, hcallee.spanOf]
      have hs : Stacked (.due + h₁ + 0) none
          { m with frames := { frame with items := items } :: outer }
          (b.mapLevel fun level => { level with run := run }) :=
        ⟨h₂ + ho, haround (.refl _) (.none hlevel') ⟨rfl, rfl⟩, hc.of_eq (by abel)⟩
      refine .ok (.of_stacked ht ⟨_, _, rfl⟩ (hs.enter (.call hcallee) rfl ?_ _) ?_ ?_ ?_)
      · simp [Opener.waits]
      · simpa [Builder.push] using hb
      · simp [Builder.push]
      · simp [Builder.push]

/-! ## Closing a level -/

theorem tryTop_pop {frame : Frame} {outer : List Frame} (hm : m.frames = frame :: outer)
    (f : Frame → Arena → Except Halt (Frame × Arena)) (k : Frame × Machine → Except Halt α) :
    (m.tryTop f >>= fun m => m.pop >>= k) = f frame m.arena >>= fun out =>
      k (out.1, { m with arena := out.2, frames := outer }) := by
  rw [Machine.tryTop, hm]
  simp only
  cases f frame m.arena <;> rfl

/-- A frame of the machine and the frame of the builder that it belongs to, with what is around
them. -/
structure Closing (m : Machine) (b : Builder) (frame : Frame) (outer : List Frame) (opener : Opener)
    (level : Level) (outer' : List SlotScript.Frame) (hk hl ho : Holding) : Prop where
  machine : m.frames = frame :: outer
  builder : b.frames = ⟨opener, frame.span, level⟩ :: outer'
  kind : HeldKind m.arena hk frame.kind opener
  level : HeldLevel m.arena hl frame level
  waits : opener.waits = true → (Builder.levelOf b.root outer').run = []
  outer : HeldFrames m.arena b.root (pendingOf opener) ho outer outer'
  covers : m.arena.Covers m.read (hl + (hk + ho + .due))

section Closing

variable {frame : Frame} {outer : List Frame} {opener : Opener} {level : Level}
  {outer' : List SlotScript.Frame} {hk hl ho : Holding}

/-- The level ends with its last part, and only its parts are still needed. -/
theorem Closing.closePart_refines (hclosing : Closing m b frame outer opener level outer' hk hl ho)
    (htokens : m.read < tokenLimit) :
    Refines (fun out closed => m.arena.Grows out.2 ∧ out.1.span = frame.span ∧
      ∃ hp, Each (HeldOption out.2) hp out.1.parts closed.parts ∧
        out.2.Covers m.read (hp + (hk + ho + .due)))
      (frame.closePart m.arena) level.closePart := by
  refine (Flat.closePart_refines htokens hclosing.level hclosing.covers).imp ?_
  rintro ⟨closed, a⟩ closed' ⟨hg, h, ⟨hclosed, -, hspan⟩, hc⟩
  obtain @⟨hr, hi, hln, hp, kind, span, loose, run, items, items', lines, lines', parts, parts', groups,
    -, -, -, hparts⟩ := hclosed
  exact ⟨hg, hspan, hp, hparts, (hc.of_eq (by abel) : a.Covers m.read (hr + hi + hln + _)).forget⟩

theorem Stays.closedCall (hstays : Stays m m' b) (hprevious : b.previous = .token (.word ")")) :
    Stays m { m' with callEnd := some m'.read } { b with previous := .closedCall } := by
  obtain ⟨⟨hstacked, hpreceded, hanonymous, hlimit⟩, hrest, hexpectation⟩ := hstays
  rw [hprevious] at hpreceded
  exact ⟨⟨hstacked, hpreceded.closedCall, hanonymous, hlimit⟩, hrest, hexpectation⟩

theorem Stays.closedHeader (hstays : Stays m m' b) (hprevious : b.previous = .token (.word ")")) :
    Stays m { m' with headerEnd := some m'.read } { b with previous := .closedHeader } := by
  obtain ⟨⟨hstacked, hpreceded, hanonymous, hlimit⟩, hrest, hexpectation⟩ := hstays
  rw [hprevious] at hpreceded
  exact ⟨⟨hstacked, hpreceded.closedHeader, hanonymous, hlimit⟩, hrest, hexpectation⟩

theorem finishCall_refines (ht : Tracks .due m b) (hb : b.expectation = .any)
    (hprevious : b.previous = .token (.word ")")) {callee : Nat} {node : Node}
    (hclosing : Closing m b frame outer (.call node) level outer' (.due + hk) hl ho)
    (hcallee : m.arena.Held hk callee node) (close : Span) :
    Refines (Stays m) (m.finishCall callee close)
      ({ b with frames := outer' }.finishCall node frame.span close level) := by
  rw [Machine.finishCall, tryTop_pop hclosing.machine]
  refine (hclosing.closePart_refines ht.read_lt).bind ?_
  rintro ⟨closed, a⟩ closed' ⟨hg, hspan, hp, hparts, hc⟩
  refine (listParts_refines .argument close hparts.reverse).bind fun args nodes hargs => ?_
  refine (Arena.allocLinks_refines ht.read_lt hargs hc).bind_left ?_
  rintro ⟨range, a'⟩ ⟨hg', h, ⟨links, hlinks, hnodes, hcells⟩, hc'⟩
  dsimp only at hspan hlinks hnodes
  have hcallee := (hcallee.grows hg).grows hg'
  have hs : Stacked (.due + (hk + h) + .due) none
      { m with arena := a', frames := outer } { b with frames := outer' } :=
    ⟨ho, (hclosing.outer.grows hg).grows hg', hc'.of_eq (by abel)⟩
  have hlinks' : Cell.links? a' (.call callee range) = some (callee :: links) := by
    simp [Cell.links?, hlinks]
  have hnode : Entry.node? a' a'.tree? ⟨.call callee range, closed.span.merge close⟩ =
      some (.call node nodes (frame.span.merge close)) := by
    simp [Entry.node?, hlinks, hnodes, hcallee.1, hspan]
  refine (hs.operand_refines ht.read_lt hlinks' hnode (by simp [hcallee.2, hcells])).bind_left ?_
  rintro m' ⟨hm, hs', -⟩
  have hstays : Stays m m' (Builder.operand { b with frames := outer' }
      (.call node nodes (frame.span.merge close))) := by
    obtain ⟨a'', frames, rfl⟩ := hm
    refine .of_stacked ht ⟨_, _, rfl⟩ hs' ?_ ?_ ?_
    all_goals simp [Builder.operand, hb]
  exact .ok (hstays.closedCall (by simpa [Builder.operand] using hprevious))

theorem finishHeader_refines (ht : Tracks .due m b) (hb : b.expectation = .any)
    (hprevious : b.previous = .token (.word ")")) {construct : Construct}
    (hclosing : Closing m b frame outer (.header construct) level outer' 0 hl ho) (close : Span) :
    Refines (Stays m) (m.finishHeader construct close)
      ({ b with frames := outer' }.finishHeader construct frame.span close level) := by
  rw [Machine.finishHeader, tryTop_pop hclosing.machine]
  refine (hclosing.closePart_refines ht.read_lt).bind ?_
  rintro ⟨closed, a⟩ closed' ⟨hg, hspan, hp, hparts, hc⟩
  dsimp only at hspan ⊢
  rw [hspan]
  refine (headerItem_refines construct frame.span close hparts.reverse).bind fun item item' hitem => ?_
  have hs : Stacked (.due + hp + 0) none { m with arena := a, frames := outer }
      { b with frames := outer' } :=
    ⟨ho, hclosing.outer.grows hg, hc.of_eq (by abel)⟩
  have hrun : Builder.level { b with frames := outer' } = Builder.levelOf b.root outer' := by
    cases outer' <;> rfl
  obtain ⟨m', hm', ⟨a', frames, rfl⟩, hs'⟩ := hs.push_item hitem (hrun ▸ hclosing.waits rfl)
  rw [hm']
  have hstays := Stays.of_stacked ht ⟨_, _, rfl⟩ hs' (by simpa using hb) (by simp) (by simp)
  exact .ok (hstays.closedHeader (by simpa using hprevious))

/-- The head of the function waits on top of the level, and the brace of its body comes next. -/
theorem finishParams_refines (ht : Tracks .due m b) {name : String} {anonymous : Bool}
    (hclosing : Closing m b frame outer (.params name anonymous) level outer' 0 hl ho)
    (close : Span) :
    Refines (Settled m) (m.finishParams name anonymous close)
      ({ b with frames := outer' }.finishParams name anonymous frame.span close level >>=
        (·.resolve m.rest)) := by
  rw [Machine.finishParams, tryTop_pop hclosing.machine, Builder.finishParams, bind_assoc]
  refine (hclosing.closePart_refines ht.read_lt).bind ?_
  rintro ⟨closed, a⟩ closed' ⟨hg, hspan, hp, hparts, hc⟩
  dsimp only at hspan ⊢
  rw [bind_assoc]
  refine (listParts_refines .parameter close hparts.reverse).bind fun links nodes hlinks => ?_
  rw [bind_assoc]
  refine (mapM_formalOf_refines hlinks).bind ?_
  rintro formals params ⟨h, hformals, hle⟩
  refine (Arena.allocFormals_refines ht.read_lt hformals (hc.mono (add_le_add_left hle _))).bind_left ?_
  rintro ⟨range, a'⟩ ⟨hg', h', hparams, hc'⟩
  dsimp only at hparams hc' ⊢
  rw [hspan, pure_bind, Builder.resolve, Builder.expectation_expect]
  by_cases hbrace : wordAhead m.rest = some "\x7b"
  · rw [if_pos hbrace]
    simp only [if_pos hbrace]
    have hs : Stacked (.due + h') none { m with arena := a', frames := outer }
        { b with frames := outer' } :=
      ⟨ho, (hclosing.outer.grows hg).grows hg', hc'.of_eq (by abel)⟩
    have hrun : Builder.level { b with frames := outer' } = Builder.levelOf b.root outer' := by
      cases outer' <;> rfl
    let head : FunctionHead := ⟨name, params, frame.span⟩
    obtain ⟨m', hm', ⟨a'', frames, rfl⟩, hs'⟩ : ∃ m', { m with arena := a', frames := outer }.mapTop
        (·.push (.define name anonymous range frame.span)) = .ok m' ∧
        Restacked { m with arena := a', frames := outer } m' ∧
        Stacked 0 (some (head, anonymous)) m' ({ b with frames := outer' }.mapLevel id) := by
      refine hs.mapTop fun hlevel => ⟨_, .some head anonymous hparams hlevel.level ?_, ⟨rfl, rfl⟩, ?_⟩
      · rintro rfl
        rw [hrun]
        exact hclosing.waits rfl
      · exact le_of_eq (by abel)
    rw [hm']
    refine .ok ⟨ht.restack ⟨_, _, rfl⟩ ?_ rfl rfl, rfl, Nat.le_refl _, .inr ⟨⟨_, _, _, rfl⟩, hbrace⟩⟩
    rw [Builder.mapLevel, id, Builder.setLevel_level] at hs'
    exact hs'
  · rw [if_neg hbrace]
    simp only [if_neg hbrace]
    exact .fault _

end Closing

/-- Only the program's level is open, or there is one around the innermost. -/
theorem Tracks.frames_cases (ht : Tracks .due m b) (hb : b.expectation = .any) :
    (∃ frame h, m.frames = [frame] ∧ frame.kind = .root ∧ b.frames = [] ∧
      HeldLevel m.arena h frame b.root ∧ m.arena.Covers m.read (h + .due)) ∨
    ∃ frame outer opener level outer' hk hl ho,
      Closing m b frame outer opener level outer' hk hl ho := by
  obtain ⟨h, hframes, hc⟩ := ht.stacked_any hb
  generalize hm : m.frames = frames at hframes
  generalize hb' : b.frames = frames' at hframes
  cases hframes with
  | @root _ h frame hkind hlevel => exact .inl ⟨frame, h, rfl, hkind, rfl, hlevel.level, hc⟩
  | @cons _ hk hl h frame opener level outer outer' hkind hlevel hwaits houter =>
    exact .inr ⟨frame, outer, opener, level, outer', hk, hl, h, hm, hb', hkind, hlevel.level, hwaits,
      houter, hc.of_eq (by abel)⟩

theorem closeParen_refines (ht : Tracks .due m b) (hb : b.expectation = .any)
    (hprevious : b.previous = .token (.word ")")) (span : Span) :
    Refines (Settled m) (m.closeParen span) (b.closeParen span >>= (·.resolve m.rest)) := by
  have hclose : ∀ groups, Refines (Stays m)
      (m.mapTop fun frame => { frame with groups := groups })
      (.ok (b.mapLevel fun level => { level with groups := groups })) := fun groups =>
    mapTop_refines ht hb fun hlevel => ⟨_, hlevel.groups groups, ⟨rfl, rfl⟩, le_self_add⟩
  rw [Machine.closeParen, Machine.top, Builder.closeParen]
  rcases ht.frames_cases hb with ⟨frame, h, hm, hkind, hb', hlevel, hc⟩ |
    ⟨frame, outer, opener, level, outer', hk, hl, ho, hclosing⟩
  · rw [hm, ok_bind, hb', hkind, hlevel.groups_eq, Builder.level, hb']
    cases b.root.groups with
    | nil => exact .fault _
    | cons opening groups => exact (hclose groups).settled
  · rw [hclosing.machine, ok_bind, hclosing.builder, hclosing.level.groups_eq, Builder.level,
      hclosing.builder]
    cases level.groups with
    | cons opening groups => exact (hclose groups).settled
    | nil =>
      have hkind := hclosing.kind
      generalize hframe : frame.kind = kind at hkind
      cases hkind with
      | block head => exact .fault _
      | call hcallee => exact (finishCall_refines ht hb hprevious hclosing hcallee span).settled
      | header construct => exact (finishHeader_refines ht hb hprevious hclosing span).settled
      | params name anonymous => exact finishParams_refines ht hclosing span

/-! ## Blocks -/

/-- The machine tracks the builder after the end of an expression. -/
structure Ended (m m' : Machine) (b : Builder) : Prop where
  tracks : Tracks .due m' b
  rest : m'.rest = m.rest
  expectation : b.expectation = .any
  run : b.level.run = []

theorem endExpression_refines (ht : Tracks .due m b) (hb : b.expectation = .any) :
    Refines (Ended m) (m.tryTop Frame.closeExpression) (b.tryLevel Level.closeExpression) := by
  refine ((ht.stacked_any hb).tryTop_refines (closeExpression_refines ht.read_lt)).imp ?_
  rintro m' _ ⟨hm, hs, level, hlevel, rfl⟩
  have hb' : (b.setLevel level).expectation = .any := by simpa using hb
  refine ⟨ht.restack hm ?_ (by simp) (by simp), hm.rest_eq, hb', ?_⟩
  · rwa [hb']
  · simpa using Level.closeExpression_run hlevel

theorem openBrace_refines (ht : Tracks .due m b) (hb : b.expectation = .any) (span : Span) :
    Refines (Stays m) (m.openBrace span) (b.openBrace span) := by
  refine (endExpression_refines ht hb).bind fun m' b' hend => ?_
  have hs := hend.tracks.stacked_any hend.expectation
  rw [← add_zero Holding.due] at hs
  have hs' := hs.enter (.block none) rfl (fun _ => hend.run) span
  have hstays := Stays.of_stacked hend.tracks ⟨_, _, rfl⟩ hs' hend.expectation rfl rfl
  exact .ok (hstays.of_rest hend.rest)

/-- The head of a function on top of a level is no expression. -/
theorem Stacked.tryTop_pending {spare : Holding} {head : FunctionHead} {anonymous : Bool}
    (hs : Stacked spare (some (head, anonymous)) m b) :
    m.tryTop Frame.closeExpression = .ok m := by
  obtain ⟨h, hframes, hc⟩ := hs
  obtain ⟨frame, outer, hl, ho, hm, rfl, hlevel, haround⟩ := hframes.zoom
  cases hlevel
  rw [Machine.tryTop, hm]
  rcases m with ⟨a, frames, rest, read, previous, current, headerEnd, callEnd, anonymous⟩
  obtain rfl : frames = _ := hm
  rfl

/-- The head of a function that has a name becomes an item when its body starts. Nothing is loose
then. -/
theorem Stacked.define {spare : Holding} {head : FunctionHead}
    (hs : Stacked spare (some (head, false)) m b) :
    Stacked spare none m (b.mapLevel (·.item (.define head))) ∧ b.level.run = [] := by
  obtain ⟨h, hframes, hc⟩ := hs
  obtain ⟨frame, outer, hl, ho, hm, rfl, hlevel, haround⟩ := hframes.zoom
  cases hlevel with
  | some head anonymous hparams hlevel hrun =>
    have hitem := hlevel.item (.define head hparams) (hrun rfl)
    refine ⟨⟨_, ?_, hc⟩, hrun rfl⟩
    rw [hm]
    exact haround (.refl _) (.none hitem) ⟨rfl, rfl⟩

theorem openBody_refines (ht : Tracks .due m b) {head : FunctionHead} {anonymous : Bool} {close : Span}
    (hb : b.expectation = .body head anonymous close) {token : Token}
    (hbrace : token.kind = .word "\x7b") :
    Refines (Stays m) (m.openBrace token.span)
      ((b.expect .any).bodyToken token head anonymous) := by
  have hs : Stacked (.due + 0) (some (head, anonymous)) m (b.expect .any) := by
    have hs := ht.stacked
    rwa [hb] at hs
  rw [Machine.openBrace, hs.tryTop_pending, ok_bind, Builder.bodyToken,
    if_neg (not_not_intro hbrace)]
  cases anonymous with
  | true =>
    have hs' := hs.enter (.block (some head)) rfl (by simp [Opener.waits]) token.span
    exact .ok (.of_stacked ht ⟨_, _, rfl⟩ hs' rfl rfl rfl)
  | false =>
    obtain ⟨hdefine, hrun⟩ := hs.define
    have hs' := hdefine.enter (.block none) rfl (fun _ => by simpa [Builder.mapLevel, Level.item] using hrun)
      token.span
    refine .ok (.of_stacked ht ⟨_, _, rfl⟩ hs' ?_ ?_ ?_)
    all_goals simp [Builder.push, Builder.expect]

/-- The level ends with its last line, and only its lines are still needed. -/
theorem Closing.closeLine_refines {frame : Frame} {outer : List Frame} {opener : Opener}
    {level : Level} {outer' : List SlotScript.Frame} {hk hl ho : Holding}
    (hclosing : Closing m b frame outer opener level outer' hk hl ho)
    (htokens : m.read < tokenLimit) :
    Refines (fun out closed => m.arena.Grows out.2 ∧ out.1.span = frame.span ∧
      ∃ h, Each out.2.Held h out.1.lines closed.lines ∧ out.2.Covers m.read (h + (hk + ho + .due)))
      (frame.closeLine m.arena) level.closeLine := by
  refine (Flat.closeLine_refines htokens hclosing.level hclosing.covers).imp ?_
  rintro ⟨closed, a⟩ closed' ⟨hg, h, ⟨hclosed, -, hspan⟩, hc⟩
  obtain @⟨hr, hi, hln, hp, kind, span, loose, run, items, items', lines, lines', parts, parts', groups,
    -, -, hlines, -⟩ := hclosed
  exact ⟨hg, hspan, hln, hlines, (hc.of_eq (by abel) : a.Covers m.read (hr + hi + hp + _)).forget⟩

/-- The body of a function without a name completes the head on top of the level. -/
theorem placeValue_refines (htokens : m.read < tokenLimit) {h : Holding} {block : Nat} {node : Node}
    {head : FunctionHead} (hs : Stacked (h + .due) (some (head, true)) m b)
    (hblock : m.arena.Held h block node) :
    Refines (fun m' b' => Restacked m m' ∧ Stacked .due none m' b' ∧ ∃ node, b' = b.operand node)
      (m.placeBlock block) (head.complete none node >>= fun node => .ok (b.operand node)) := by
  obtain ⟨_, hframes, hc⟩ := hs
  obtain ⟨frame, outer, hl, ho, hm, rfl, hlevel, haround⟩ := hframes.zoom
  cases hlevel with
  | @some hl hp frame _ range head anonymous hparams hlevel hrun =>
    simp only [Machine.placeBlock, Machine.top, Machine.mapTop, hm, ok_bind, Frame.push]
    refine (completeFunction_refines htokens head true hparams hblock (hc.of_eq (by abel) :
      m.arena.Covers m.read (.due + (hp + h) + (hl + ho + .due)))).bind ?_
    rintro ⟨link, a⟩ value ⟨hg, hv, hlink, hc'⟩
    have hlevel' := (hlevel.grows hg).operand hlink
    exact .ok ⟨⟨_, _, rfl⟩, ⟨_, haround hg (.none hlevel') ⟨rfl, rfl⟩, hc'.of_eq (by abel)⟩, _, rfl⟩

/-- Any other block is an item, and ends its statement unless an `else` comes next. -/
theorem placeStatement_refines (htokens : m.read < tokenLimit) {h : Holding} {block : Nat}
    {node : Node} (hs : Stacked (h + .due) none m b) (hrun : b.level.run = [])
    (hblock : m.arena.Held h block node) :
    Refines (fun m' p => Restacked m m' ∧ Stacked .due none m' p.1 ∧
      ∃ level, p = ((b.setLevel level).expect .any, m.rest)) (m.placeBlock block)
      (((b.mapLevel (·.item (.node node))).expect .otherwise).resolve m.rest) := by
  have hplace : m.placeBlock block = m.mapTop (·.push (.node block)) >>= fun m =>
      if wordAhead m.rest = some "else" then .ok m else m.tryTop Frame.closeLine := by
    obtain ⟨_, hframes, hc⟩ := hs
    obtain ⟨frame, outer, hl, ho, hm, rfl, hlevel, -⟩ := hframes.zoom
    rw [Machine.placeBlock, Machine.top, hm, ok_bind]
    split
    · rename_i hitems
      exact absurd hitems (hlevel.level.items_ne _ _ _ _)
    · rfl
  obtain ⟨m', hm', ⟨a, frames, rfl⟩, hs'⟩ := hs.push_item (.node hblock) hrun
  rw [hplace, hm', ok_bind, Builder.resolve, Builder.expectation_expect]
  by_cases helse : wordAhead m.rest = some "else"
  · simp only [if_pos helse]
    exact .ok ⟨⟨_, _, rfl⟩, hs', _, rfl⟩
  · simp only [if_neg helse]
    refine (Stacked.tryTop_refines (b := (b.mapLevel _).expect .otherwise) hs'
      (closeLine_refines htokens)).map_right ?_
    rintro m' _ ⟨⟨a', frames', rfl⟩, hs'', level, -, rfl⟩
    refine ⟨⟨_, _, rfl⟩, hs'', level, ?_⟩
    rcases b with ⟨root, _ | ⟨frame, outer⟩, expectation, previous, anonymous⟩ <;> rfl

theorem finishBlock_refines (ht : Tracks .due m b) (hb : b.expectation = .any) {frame : Frame}
    {outer : List Frame} {head : Option FunctionHead} {level : Level}
    {outer' : List SlotScript.Frame} {hl ho : Holding}
    (hclosing : Closing m b frame outer (.block head) level outer' .due hl ho) (close : Span) :
    Refines (Settled m) (m.finishBlock close)
      ({ b with frames := outer' }.finishBlock head frame.span close level >>=
        (·.resolve m.rest)) := by
  rw [Machine.finishBlock, tryTop_pop hclosing.machine, Builder.finishBlock, bind_assoc]
  refine (hclosing.closeLine_refines ht.read_lt).bind ?_
  rintro ⟨closed, a⟩ closed' ⟨hg, hspan, h, hlines, hc⟩
  refine (Arena.allocLinks_refines ht.read_lt hlines.reverse hc).bind_left ?_
  rintro ⟨range, a'⟩ ⟨hg', h', ⟨links, hlinks, hnodes, hcells⟩, hc'⟩
  dsimp only at hspan hlinks hnodes ⊢
  have hs : Stacked (.due + h' + .due) (pendingOf (.block head))
      { m with arena := a', frames := outer } { b with frames := outer' } :=
    ⟨ho, (hclosing.outer.grows hg).grows hg', hc'.of_eq (by abel)⟩
  have hnode : Entry.node? a' a'.tree? ⟨.block range, closed.span.merge close⟩ =
      some (.block closed'.lines.reverse (frame.span.merge close)) := by
    simp [Entry.node?, hlinks, hnodes, hspan]
  have hlinks' : Cell.links? a' (.block range) = some links := hlinks
  refine (hs.alloc_refines ht.read_lt hlinks' hnode (by rw [hcells])).bind_left ?_
  rintro ⟨block, m'⟩ ⟨hm', -, h'', hblock, hs'⟩
  dsimp only at hm' hblock hs'
  have hm : Restacked m m' := Restacked.trans ⟨_, _, rfl⟩ hm'
  have hread : m'.read < tokenLimit := hm.read_eq ▸ ht.read_lt
  cases head with
  | some head =>
    refine Refines.settled (y := head.complete none _ >>= _)
      ((placeValue_refines hread hs' hblock).imp ?_)
    rintro m'' _ ⟨hm'', hs'', node, rfl⟩
    refine .of_stacked ht (hm.trans hm'') hs'' ?_ ?_ ?_
    all_goals simp [Builder.operand, hb]
  | none =>
    have hrun : Builder.level { b with frames := outer' } = Builder.levelOf b.root outer' := by
      cases outer' <;> rfl
    have hplace := placeStatement_refines hread hs' (hrun ▸ hclosing.waits rfl) hblock
    rw [hm.rest_eq] at hplace
    refine hplace.imp ?_
    rintro m'' _ ⟨hm'', hs'', level, rfl⟩
    have hstays := Stays.of_stacked ht (hm.trans hm'') hs'' rfl (by simp [Builder.expect])
      (by simp [Builder.expect])
    exact hstays.settled

theorem closeBrace_refines (ht : Tracks .due m b) (hb : b.expectation = .any) (span : Span) :
    Refines (Settled m) (m.closeBrace span) (b.closeBrace span >>= (·.resolve m.rest)) := by
  rw [Machine.closeBrace, Machine.top, Builder.closeBrace]
  rcases ht.frames_cases hb with ⟨frame, h, hm, hkind, hb', hlevel, hc⟩ |
    ⟨frame, outer, opener, level, outer', hk, hl, ho, hclosing⟩
  · rw [hm, ok_bind, hb', hkind, hlevel.groups_eq, Builder.level, hb']
    cases b.root.groups <;> exact .fault _
  · rw [hclosing.machine, ok_bind, hclosing.builder, hclosing.level.groups_eq, Builder.level,
      hclosing.builder]
    cases level.groups with
    | cons opening groups => exact .fault _
    | nil =>
      have hkind := hclosing.kind
      generalize hframe : frame.kind = kind at hkind
      cases hkind with
      | block head => exact finishBlock_refines ht hb hclosing span
      | call hcallee => exact .fault _
      | header construct => exact .fault _
      | params name anonymous => exact .fault _

/-! ## Separators -/

theorem tryTop_refines (ht : Tracks .due m b) (hb : b.expectation = .any)
    {f : Frame → Arena → Except Halt (Frame × Arena)} {g : Level → Except BuildError Level}
    (hfg : ∀ {a : Arena} {h rest : Holding} {frame : Frame} {level : Level},
      HeldLevel a h frame level → a.Covers m.read (h + rest) →
      Refines (Yields a m.read rest (HeldFrame frame)) (f frame a) (g level)) :
    Refines (Stays m) (m.tryTop f) (b.tryLevel g) := by
  refine ((ht.stacked_any hb).tryTop_refines hfg).imp ?_
  rintro m' _ ⟨hm, hs, level, -, rfl⟩
  exact .of_stacked ht hm hs (by simpa using hb) (by simp) (by simp)

theorem semicolon_refines (ht : Tracks .due m b) (hb : b.expectation = .any) (span : Span) :
    Refines (Stays m) (m.semicolon span) (b.semicolon span) := by
  have hline := tryTop_refines ht hb (closeLine_refines ht.read_lt)
  have hpart := tryTop_refines ht hb (closePart_refines ht.read_lt)
  rw [Machine.semicolon, Machine.top, Builder.semicolon, Builder.opener?, Builder.endStatement]
  rcases ht.frames_cases hb with ⟨frame, h, hm, hkind, hb', hlevel, hc⟩ |
    ⟨frame, outer, opener, level, outer', hk, hl, ho, hclosing⟩
  · rw [hm, ok_bind, hb', hkind, hlevel.groups_eq, Builder.level, hb']
    cases b.root.groups with
    | nil => exact hline
    | cons opening groups => exact .fault _
  · rw [hclosing.machine, ok_bind, hclosing.builder, hclosing.level.groups_eq, Builder.level,
      hclosing.builder]
    have hkind := hclosing.kind
    generalize hframe : frame.kind = kind at hkind
    cases level.groups with
    | cons opening groups => cases hkind <;> exact .fault _
    | nil =>
      cases hkind with
      | block head => exact hline
      | call hcallee => exact .fault _
      | header construct => exact hpart
      | params name anonymous => exact .fault _

theorem comma_refines (ht : Tracks .due m b) (hb : b.expectation = .any) (span : Span) :
    Refines (Stays m) (m.comma span) (b.comma span) := by
  have hpart := tryTop_refines ht hb (closePart_refines ht.read_lt)
  rw [Machine.comma, Machine.top, Builder.comma, Builder.opener?]
  rcases ht.frames_cases hb with ⟨frame, h, hm, hkind, hb', hlevel, hc⟩ |
    ⟨frame, outer, opener, level, outer', hk, hl, ho, hclosing⟩
  · rw [hm, ok_bind, hb', hkind]
    exact .fault _
  · rw [hclosing.machine, ok_bind, hclosing.builder, hclosing.level.groups_eq, Builder.level,
      hclosing.builder]
    have hkind := hclosing.kind
    generalize hframe : frame.kind = kind at hkind
    cases level.groups with
    | cons opening groups => cases hkind <;> exact .fault _
    | nil =>
      cases hkind with
      | block head => exact .fault _
      | call hcallee => exact hpart
      | header construct => exact .fault _
      | params name anonymous => exact hpart

/-! ## Statements -/

/-- The name that is assigned to becomes an item. -/
theorem assignTo_refines (ht : Tracks .due m b) (hb : b.expectation = .any) {name : String}
    {var : VarRef} {target : Span} (hrun : b.level.run = [.operand (.ident name var target)]) :
    Refines (Stays m)
      (m.mapTop fun frame => { frame with items := .assign name .plain target :: frame.items.tail })
      (.ok (b.mapLevel fun level => { level with run := [] }.item (.assign name .plain target))) := by
  refine mapTop_refines ht hb fun {hl frame} hlevel => ?_
  rcases hlevel.top with ⟨hnil, -⟩ | ⟨op, p, at', run, items, hop, -⟩ |
    ⟨h₁, h₂, link, node, run, items, hcons, hitems, rfl, -, hlevel'⟩
  · rw [hrun] at hnil
    cases hnil
  · rw [hrun] at hop
    cases hop
  · rw [hrun] at hcons
    cases hcons
    rw [hitems]
    exact ⟨_, hlevel'.item (.assign name .plain target) rfl, ⟨rfl, rfl⟩,
      (add_comm _ _).le.trans (add_le_add_left le_add_self _)⟩

theorem equals_refines (ht : Tracks .due m b) (hb : b.expectation = .any) (span : Span) :
    Refines (Stays m) (m.equals span) (b.equals span) := by
  obtain ⟨frame, outer, hl, ho, hm, hlevel, -, -⟩ := ht.zoom hb
  obtain ⟨hr, hloose⟩ := hlevel.looseRun
  rw [Machine.equals, Machine.top, hm, ok_bind, hlevel.groups_eq, Builder.equals]
  cases b.level.groups with
  | cons opening groups => exact .fault _
  | nil =>
    generalize hreverse : b.level.run.reverse = run at hloose
    have hrun : b.level.run = run.reverse := List.reverse_eq_iff.1 hreverse
    generalize frame.looseRun = loose at hloose
    rw [hrun]
    rcases hloose with _ | ⟨hitem, _ | ⟨hnext, hmore⟩⟩
    · exact .fault _
    · cases hitem with
      | operator op p place => exact .fault _
      | operand hlink =>
        obtain ⟨cell, hentry, hlook⟩ := hlink.entry
        simp only [hentry, ok_bind]
        rcases hlook with ⟨name, var, place, rfl, rfl⟩ | ⟨range, body, place, rfl, rfl⟩ |
          ⟨target, var, j, value, place, rfl, -, rfl⟩ | ⟨hcell, hnode⟩
        · exact assignTo_refines ht hb hrun
        · exact .fault _
        · exact .fault _
        · split
          · cases hcell
          · split
            · rename_i heq
              cases heq
              cases hnode
            · rename_i heq
              cases heq
              exact .fault _
            · rename_i hother
              exact absurd rfl (hother _ rfl)
    · -- Two or more operands and operators are no target.
      split
      · rename_i heq
        cases heq
      · split
        · rename_i heq
          simpa using congrArg List.length heq
        · rename_i heq
          simpa using congrArg List.length heq
        · exact .fault _

theorem otherwise_refines (ht : Tracks .due m b) (hb : b.expectation = .any) (span : Span) :
    Refines (Stays m) (m.otherwise span) (b.otherwise span) := by
  refine (endExpression_refines ht hb).bind fun m' b' hend => ?_
  have hs := hend.tracks.stacked_any hend.expectation
  rw [← zero_add Holding.due] at hs
  obtain ⟨m'', hm'', hm, hs'⟩ := hs.push_item (.otherwise span) hend.run
  obtain ⟨frame, outer, hl, ho, hframe, hlevel, -, -⟩ := hend.tracks.zoom hend.expectation
  rw [Machine.top, hframe, ok_bind]
  rcases hlevel.node_or_not hend.run with ⟨link, node, items, items', hitems, hitems'⟩ |
    ⟨hnone, hnone'⟩
  · rw [hitems, hitems', hm'']
    have hstays := Stays.of_stacked hend.tracks hm hs' (by simpa using hend.expectation) (by simp)
      (by simp)
    exact .ok (hstays.of_rest hend.rest)
  · split
    · rename_i hitems
      exact absurd hitems (hnone _ _)
    · split
      · rename_i hitems
        exact absurd hitems (hnone' _ _)
      · exact .fault _

/-! ## Looking ahead -/

/-- The next token pays for a node. -/
theorem Tracks.next {spare : Holding} (ht : Tracks spare m b) {token : Token} {rest : List Token}
    (hrest : m.rest = token :: rest) :
    Tracks (spare + .due) m.next { b with previous := .token token.kind } := by
  obtain ⟨⟨h, hframes, hc⟩, hpreceded, hanonymous, hlimit⟩ := ht
  have hnext := hpreceded.next hrest
  rw [hrest, List.length_cons] at hlimit
  rw [Machine.next, hrest] at hnext ⊢
  exact ⟨⟨h, hframes, hc.token.of_eq (by abel)⟩, hnext, hanonymous, by dsimp only; omega⟩

theorem exists_of_wordAhead {tokens : List Token} {word : String} (h : wordAhead tokens = some word) :
    ∃ token rest, tokens = token :: rest ∧ token.kind = .word word := by
  cases tokens with
  | nil => cases h
  | cons token rest => exact ⟨token, rest, rfl, wordAhead_cons.1 h⟩

/-- A word that was looked for is taken. -/
theorem Tracks.pass {spare : Holding} (ht : Tracks spare m b) (hb : b.expectation = .any)
    {word : String} (hword : wordAhead m.rest = some word) :
    Tracks (spare + .due) m.next (b.passed word) ∧ m.next.rest = m.rest.tail ∧
      m.next.rest.length ≤ m.rest.length := by
  obtain ⟨token, rest, hrest, hkind⟩ := exists_of_wordAhead hword
  have hnext := ht.next hrest
  rw [hkind] at hnext
  refine ⟨?_, ?_⟩
  · rw [Builder.passed, ← hb]
    exact hnext
  · rw [Machine.next, hrest]
    exact ⟨rfl, Nat.le_succ _⟩

theorem openAhead_refines {spare : Holding} (ht : Tracks spare m b) (hb : b.expectation = .any)
    {kind : FrameKind} {opener : Opener} (hkind : ∀ a, HeldKind a 0 kind opener)
    (hpending : pendingOf opener = none) (hwaits : opener.waits = true → b.level.run = [])
    (keyword : String) (span : Span) :
    Refines (Settled m) (m.expectParen keyword span >>= fun m => .ok (m.enter kind span))
      (b.openAhead m.rest keyword opener span) := by
  rw [Machine.expectParen, Builder.openAhead]
  by_cases hparen : wordAhead m.rest = some "("
  · rw [if_pos hparen, if_pos hparen, ok_bind]
    obtain ⟨hpass, hrest, hle⟩ := ht.pass hb hparen
    have hs := hpass.stacked_any rfl
    rw [← zero_add (spare + _)] at hs
    have hs' := hs.enter (hkind _) hpending hwaits span
    have hstays := Stays.of_stacked hpass ⟨_, _, rfl⟩ hs' rfl rfl rfl
    rw [← hrest]
    exact .ok (hstays.settled.mono hle)
  · rw [if_neg hparen, if_neg hparen]
    exact .fault _

theorem construct_refines (ht : Tracks .due m b) (hb : b.expectation = .any) (construct : Construct)
    (span : Span) :
    Refines (Settled m) (m.construct construct span)
      (b.start (.header construct span) >>= (·.resolve m.rest)) := by
  rw [Machine.construct, Builder.start, bind_assoc]
  refine (endExpression_refines ht hb).bind fun m' b' hend => ?_
  have hopen := openAhead_refines hend.tracks hend.expectation (fun _ => .header construct) rfl
    (fun _ => hend.run) construct.keyword span
  rw [hend.rest] at hopen
  exact hopen.imp fun _ _ h => h.mono (congrArg List.length hend.rest).le

/-- The function's name is taken, or it gets a made-up one. -/
theorem function_refines (ht : Tracks .due m b) (hb : b.expectation = .any) (keyword : String)
    (span : Span) :
    Refines (Settled m) (m.function keyword span)
      ((b.expect (.function keyword span)).resolve m.rest) := by
  rw [Machine.function, Builder.resolve, Builder.expectation_expect]
  cases hname : (wordAhead m.rest).filter isIdentifier with
  | some name =>
    obtain ⟨hpass, hrest, hle⟩ := ht.pass hb (Option.filter_eq_some_iff.1 hname).1
    refine (endExpression_refines hpass.forget rfl).bind fun m' b' hend => ?_
    have hopen := openAhead_refines hend.tracks hend.expectation (fun _ => .params name false) rfl
      (fun _ => hend.run) keyword span
    rw [hend.rest, hrest] at hopen
    exact hopen.imp fun _ _ h => h.mono ((congrArg List.length hend.rest).le.trans hle)
  | none =>
    let m' : Machine := { m with anonymous := m.anonymous + 1 }
    let b' : Builder := { b with anonymous := b.anonymous + 1 }
    have hpreceded : Preceded m' b'.previous := ⟨ht.preceded.current, ht.preceded.header,
      ht.preceded.call, ht.preceded.headerEnd, ht.preceded.callEnd⟩
    have ht' : Tracks .due m' b' := ⟨ht.stacked, hpreceded, by simp [m', b', ht.anonymous], ht.limit⟩
    have hopen := openAhead_refines ht' hb (fun _ => .params b.anonymousName true) rfl
      (by simp [Opener.waits]) keyword span
    have hanonymous : "anon#" ++ toString m.anonymous = b.anonymousName := by
      rw [Builder.anonymousName, ht.anonymous]
    simp only [hanonymous]
    exact hopen.imp fun _ _ h => h.mono (Nat.le_refl _)

/-- The name's own token pays for the value of a variable that is declared without one. -/
theorem declareBare_refines (ht : Tracks (.due + .due) m b) (hb : b.expectation = .any)
    (hrun : b.level.run = []) (decl : DeclKind) (name : String) (span : Span) :
    Refines (Stays m) (m.declareBare decl name span) (b.declareBare decl name span) := by
  by_cases hdecl : decl = .const
  · subst hdecl
    exact .fault _
  · have hbare : b.declareBare decl name span = .ok (b.mapLevel
        (·.item (.node (.assign name .unresolved decl none (.null span) span)))) := by
      cases decl with
      | const => exact absurd rfl hdecl
      | _ => rfl
    rw [Machine.declareBare, if_neg hdecl, hbare]
    have hs : Stacked (.due + 0 + .due) none m b := by
      rw [add_zero]
      exact ht.stacked_any hb
    have hnull : Entry.node? m.arena m.arena.tree? ⟨.null, span⟩ = some (.null span) := rfl
    refine (hs.alloc_refines ht.read_lt rfl hnull rfl).bind_left ?_
    rintro ⟨value, m'⟩ ⟨hm, -, h, hvalue, hs'⟩
    dsimp only at hm hvalue hs' ⊢
    replace hs' : Stacked (.due + h + 0) none m' b := by rwa [add_zero, add_comm]
    have hnode : Entry.node? m'.arena m'.arena.tree?
        ⟨.assign name .unresolved decl none value, span⟩ =
        some (.assign name .unresolved decl none (.null span) span) := by
      simp [Entry.node?, hvalue.1]
    refine (hs'.alloc_refines (hm.read_eq ▸ ht.read_lt) rfl hnode (by simp [hvalue.2])).bind_left ?_
    rintro ⟨link, m''⟩ ⟨hm', -, h', hlink, hs''⟩
    dsimp only at hm' hlink hs'' ⊢
    obtain ⟨_, hpush, hm'', hs⟩ := hs''.push_item (.node hlink) hrun
    rw [hpush]
    refine .ok (.of_stacked ht ((hm.trans hm').trans hm'') hs ?_ (by simp) (by simp))
    simpa using hb

theorem declareAhead_refines (ht : Tracks (.due + .due) m b) (hb : b.expectation = .any)
    (hrun : b.level.run = []) (decl : DeclKind) (name : String) (span : Span) :
    Refines (Settled m) (m.declareAhead decl name span) (b.declareAhead m.rest decl name span) := by
  rw [Machine.declareAhead, Builder.declareAhead]
  by_cases hequals : wordAhead m.rest = some "="
  · rw [if_pos hequals, if_pos hequals]
    obtain ⟨hpass, hrest, hle⟩ := ht.pass hb hequals
    have hassign : Refines (Stays m.next) (m.next.mapTop (·.push (.assign name decl span)))
        (.ok ((b.passed "=").mapLevel (·.item (.assign name decl span)))) :=
      mapTop_refines hpass rfl fun hlevel => ⟨_, hlevel.item (.assign name decl span) hrun,
        ⟨rfl, rfl⟩, (add_comm _ _).le.trans (add_le_add_right le_add_self _)⟩
    rw [← hrest]
    exact hassign.map_right fun _ _ h => h.settled.mono hle
  · rw [if_neg hequals, if_neg hequals]
    refine (declareBare_refines ht hb hrun decl name span).map_right fun m' b' hstays => ?_
    rw [Builder.expect, ← hstays.expectation]
    exact hstays.settled

theorem declare_refines (ht : Tracks .due m b) (hb : b.expectation = .any) (decl : DeclKind)
    (span : Span) :
    Refines (Settled m) (m.declare decl span)
      (b.start (.target decl span) >>= (·.resolve m.rest)) := by
  rw [Machine.declare, Builder.start, bind_assoc]
  refine (endExpression_refines ht hb).bind fun m' b' hend => ?_
  rw [pure_bind, Builder.resolve, Builder.expectation_expect, ← hend.rest]
  cases hname : (wordAhead m'.rest).filter isIdentifier with
  | none => exact .fault _
  | some name =>
    obtain ⟨hpass, hrest, hle⟩ := hend.tracks.pass hend.expectation (Option.filter_eq_some_iff.1 hname).1
    have hdeclare := declareAhead_refines hpass rfl hend.run decl name
      (span.merge (spanAhead m'.rest span))
    rw [hrest] at hdeclare
    exact hdeclare.imp fun _ _ h => h.mono (hle.trans (congrArg List.length hend.rest).le)

end

end SlotScript.Flat
