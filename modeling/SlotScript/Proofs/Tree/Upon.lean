import SlotScript.Proofs.Tree.Ending

/-!
# Reading a statement over parts that wait

While a statement is read the parts before it wait below: the head of an `if`, or the branch before an
`else`. Nothing looks at them until the statement ends. Then all items are welded together, and what the
statement alone would have become is welded to the parts below it.

**Theorem (`feed_upon`).** A token that does not end the statement does over waiting parts what it does
without them.

**Theorem (`readBy_upon`).** If tokens make one statement, then over waiting parts they make what the parts
and the statement weld to.

The tokens may end the statement before they end themselves. It is welded to the parts there, and what
comes behind is read as it is read alone, which is nothing (`exists_closed`).
-/

namespace SlotScript

/-- The level with items below its own. -/
def Level.upon (level : Level) (items : List Item) : Level := { level with items := level.items ++ items }

theorem Level.closeExpression_upon (level : Level) (items : List Item) :
    (level.upon items).closeExpression = level.closeExpression.map (·.upon items) := by
  rcases level with ⟨_ | ⟨item, run⟩, waiting, lines, parts, groups⟩
  · rfl
  · change Run.assemble (item :: run).reverse >>= _ = (Run.assemble (item :: run).reverse >>= _).map _
    cases Run.assemble (item :: run).reverse <;> rfl

namespace Builder

/-- The builder with items below those of its outermost level. -/
def upon (b : Builder) (items : List Item) : Builder := { b with root := b.root.upon items }

/-- The step does over waiting parts what it does without them, and ends no statement. -/
def Quiet (b : Builder) (step : Builder → Except BuildError Builder) : Prop :=
  ∀ b', step b = .ok b' → b'.root.lines = b.root.lines ∧ ∀ items, step (b.upon items) = .ok (b'.upon items)

variable {b b' : Builder}

theorem quiet_error (e : BuildError) : Quiet b fun _ => .error e := by
  intro b' h
  cases h

theorem Quiet.bind {step next : Builder → Except BuildError Builder} (h : Quiet b step)
    (hnext : ∀ middle, step b = .ok middle → Quiet middle next) : Quiet b fun b => step b >>= next := by
  intro b' hb'
  obtain ⟨middle, hmiddle, hb'⟩ := bind_eq_ok_iff.mp hb'
  obtain ⟨hlines, hstep⟩ := h middle hmiddle
  obtain ⟨hlines', hstep'⟩ := hnext middle hmiddle b' hb'
  exact ⟨hlines'.trans hlines, fun items =>
    bind_eq_ok_iff.mpr ⟨middle.upon items, hstep items, hstep' items⟩⟩

/-- A step that always succeeds. -/
theorem quiet_ok {f : Builder → Builder} (hlines : (f b).root.lines = b.root.lines)
    (hupon : ∀ items, f (b.upon items) = (f b).upon items) : Quiet b fun b => .ok (f b) := by
  intro b' h
  obtain rfl := Except.ok.inj h
  exact ⟨hlines, fun items => congrArg Except.ok (hupon items)⟩

theorem quiet_mapLevel (hb : b.frames = []) {f : Level → Level}
    (hlines : (f b.root).lines = b.root.lines)
    (hf : ∀ items, f (b.root.upon items) = (f b.root).upon items) : Quiet b fun b => .ok (b.mapLevel f) := by
  rcases b with ⟨root, frames, expectation, previous, anonymous⟩
  obtain rfl : frames = [] := hb
  refine quiet_ok hlines fun items => ?_
  exact congrArg (Builder.mk · [] expectation previous anonymous) (hf items)

theorem quiet_closeExpression (hb : b.frames = []) : Quiet b (·.tryLevel Level.closeExpression) := by
  rcases b with ⟨root, frames, expectation, previous, anonymous⟩
  obtain rfl : frames = [] := hb
  intro b' h
  obtain ⟨level, hlevel, rfl⟩ := tryLevel_eq_ok h
  have hlevel : root.closeExpression = .ok level := hlevel
  have hlines : level.lines = root.lines := by
    rcases Level.closeExpression_eq_ok hlevel with ⟨-, rfl⟩ | ⟨node, -, rfl⟩ <;> rfl
  refine ⟨hlines, fun items => bind_eq_ok_iff.mpr ⟨level.upon items, ?_, rfl⟩⟩
  change (root.upon items).closeExpression = _
  rw [Level.closeExpression_upon, hlevel]
  rfl

theorem quiet_openParen (hb : b.frames = []) (previous : Previous) (span : Span) :
    Quiet b fun b => .ok (b.openParen previous span) := by
  rcases b with ⟨⟨run, waiting, lines, parts, groups⟩, frames, expectation, previous', anonymous⟩
  obtain rfl : frames = [] := hb
  refine quiet_ok ?_ fun items => ?_
  · unfold openParen
    split <;> rfl
  · simp only [openParen, upon, Level.upon, level]
    split <;> rfl

theorem quiet_closeParen (hb : b.frames = []) (span : Span) : Quiet b (·.closeParen span) := by
  rcases b with ⟨⟨run, waiting, lines, parts, _ | ⟨opening, groups⟩⟩, frames, expectation, previous, anonymous⟩
  · obtain rfl : frames = [] := hb
    intro b' h
    cases h
  · obtain rfl : frames = [] := hb
    intro b' h
    obtain rfl := Except.ok.inj h
    exact ⟨rfl, fun items => rfl⟩

theorem quiet_closeBrace (hb : b.frames = []) (span : Span) : Quiet b (·.closeBrace span) := by
  rcases b with ⟨⟨run, waiting, lines, parts, _ | ⟨opening, groups⟩⟩, frames, expectation, previous, anonymous⟩
  · obtain rfl : frames = [] := hb
    intro b' h
    cases h
  · obtain rfl : frames = [] := hb
    intro b' h
    cases h

theorem quiet_comma (hb : b.frames = []) (span : Span) : Quiet b (·.comma span) := by
  rcases b with ⟨root, frames, expectation, previous, anonymous⟩
  obtain rfl : frames = [] := hb
  intro b' h
  cases h

theorem quiet_equals (hb : b.frames = []) (span : Span) : Quiet b (·.equals span) := by
  rcases b with ⟨⟨run, waiting, lines, parts, groups⟩, frames, expectation, previous, anonymous⟩
  obtain rfl : frames = [] := hb
  intro b' h
  simp only [equals, level] at h
  split at h
  · obtain rfl := Except.ok.inj h
    refine ⟨rfl, fun items => ?_⟩
    simp_all [equals, level, upon, Level.upon, mapLevel, setLevel, Level.item]
  · cases h
  · cases h

theorem quiet_item (hb : b.frames = []) (item : Item) :
    Quiet b fun b => .ok (b.mapLevel (·.item item)) :=
  quiet_mapLevel hb rfl fun _ => rfl

theorem quiet_otherwise (hb : b.frames = []) (span : Span) : Quiet b (·.otherwise span) := by
  refine (quiet_closeExpression hb).bind fun middle hmiddle => ?_
  have hframes : middle.frames = [] := (frames_tryLevel hmiddle).mpr hb
  rcases middle with ⟨⟨run, waiting, lines, parts, groups⟩, frames, expectation, previous, anonymous⟩
  obtain rfl : frames = [] := hframes
  intro b' h
  rcases waiting with _ | ⟨top, waiting⟩
  · cases h
  · cases top with
    | node node => exact quiet_item rfl (.otherwise span) b' h
    | _ => cases h

theorem quiet_expect (expectation : Expectation) :
    Quiet b fun b => .ok (b.expect expectation) := quiet_ok rfl fun _ => rfl

theorem quiet_start (hb : b.frames = []) (expectation : Expectation) : Quiet b (·.start expectation) := by
  exact (quiet_closeExpression hb).bind fun _ _ => quiet_expect expectation

theorem quiet_handle (hb : b.frames = []) (previous : Previous) {token : Token}
    (htoken : token.kind ≠ .separator) : Quiet b (·.handle previous token) := by
  obtain ⟨act, hact, heq⟩ := exists_act previous token
  simp only [heq]
  cases hact with
  | operand node => exact quiet_mapLevel hb rfl fun _ => rfl
  | operator op base => exact quiet_mapLevel hb rfl fun _ => rfl
  | openParen => exact quiet_openParen hb previous token.span
  | closeParen => exact quiet_closeParen hb token.span
  | closeBrace => exact quiet_closeBrace hb token.span
  | comma => exact quiet_comma hb token.span
  | equals => exact quiet_equals hb token.span
  | semicolon h => exact absurd h htoken
  | function keyword => exact quiet_expect _
  | openBrace =>
    exact (quiet_closeExpression hb).bind fun middle _ => quiet_ok rfl fun _ => rfl
  | start expectation => exact quiet_start hb expectation
  | otherwise => exact quiet_otherwise hb token.span
  | nothing => exact quiet_ok (f := id) rfl fun _ => rfl
  | fails e => exact quiet_error e

theorem quiet_openAt (token : Token) (keyword : String) (opener : Opener) (span : Span) :
    Quiet b (·.openAt token keyword opener span) := by
  by_cases h : token.kind = .word "("
  · simp only [openAt, if_pos h]
    exact quiet_ok rfl fun _ => rfl
  · simp only [openAt, if_neg h]
    exact quiet_error _

theorem quiet_declareBare (hb : b.frames = []) (decl : DeclKind) (name : String) (span : Span) :
    Quiet b (·.declareBare decl name span) := by
  cases decl with
  | const => exact quiet_error _
  | _ => exact quiet_item hb _

theorem quiet_functionToken (hb : b.frames = []) (token : Token) (keyword : String) (span : Span) :
    Quiet b (·.functionToken token keyword span) := by
  unfold functionToken
  cases nameOf? token with
  | some name => exact quiet_start hb _
  | none =>
    intro b' h
    exact quiet_openAt (b := { b with anonymous := b.anonymous + 1 }) token keyword _ span b' h

theorem quiet_bodyToken (hb : b.frames = []) (token : Token) (head : FunctionHead) (anonymous : Bool) :
    Quiet b (·.bodyToken token head anonymous) := by
  unfold bodyToken
  by_cases h : token.kind ≠ .word "\x7b"
  · simp only [if_pos h]
    exact quiet_error _
  · simp only [if_neg h]
    cases anonymous with
    | true => exact quiet_ok rfl fun _ => rfl
    | false =>
      rcases b with ⟨root, frames, expectation, previous, number⟩
      obtain rfl : frames = [] := hb
      exact quiet_ok rfl fun _ => rfl

theorem quiet_targetToken (token : Token) (decl : DeclKind) (span : Span) :
    Quiet b (·.targetToken token decl span) := by
  unfold targetToken
  cases nameOf? token with
  | some name => exact quiet_expect _
  | none => exact quiet_error _

theorem quiet_initializerToken (hb : b.frames = []) (previous : Previous) {token : Token}
    (htoken : token.kind ≠ .separator) (decl : DeclKind) (name : String) (span : Span) :
    Quiet b (·.initializerToken previous token decl name span) := by
  unfold initializerToken
  by_cases h : token.kind = .word "="
  · simp only [if_pos h]
    exact quiet_item hb _
  · simp only [if_neg h]
    exact (quiet_declareBare hb decl name span).bind fun middle hmiddle =>
      quiet_handle ((frames_declareBare hmiddle).mpr hb) previous htoken

/-- **A token that does not end the statement is read over waiting parts as without them.** -/
theorem feed_upon {token : Token} (hquiet : ¬ b.EndsStatement token) (h : b.feed token = .ok b') :
    b'.root.lines = b.root.lines ∧ ∀ items, (b.upon items).feed token = .ok (b'.upon items) := by
  rcases b with ⟨root, _ | ⟨frame, outer⟩, expectation, previous, anonymous⟩
  · have hseparator : token.kind ≠ .separator := fun heq => hquiet ⟨rfl, .inl heq⟩
    let b : Builder := ⟨root, [], .any, .token token.kind, anonymous⟩
    have hb : b.frames = [] := rfl
    cases expectation with
    | any => exact quiet_handle hb previous hseparator b' h
    | header construct span => exact quiet_openAt (b := b) token _ _ span b' h
    | function keyword span => exact quiet_functionToken hb token keyword span b' h
    | params name keyword span => exact quiet_openAt (b := b) token _ _ span b' h
    | body head unnamed close => exact quiet_bodyToken hb token head unnamed b' h
    | target decl span => exact quiet_targetToken (b := b) token decl span b' h
    | initializer decl name span => exact quiet_initializerToken hb previous hseparator decl name span b' h
    | otherwise =>
      have helse : token.kind = .word "else" := by
        by_contra hne
        exact hquiet ⟨rfl, .inr ⟨rfl, hne⟩⟩
      have hfeed : ∀ root, feed ⟨root, [], .otherwise, previous, anonymous⟩ token =
          handle ⟨root, [], .any, .token token.kind, anonymous⟩ previous token := fun root => if_pos helse
      rw [hfeed] at h
      obtain ⟨hlines, hupon⟩ := quiet_handle hb previous hseparator b' h
      exact ⟨hlines, fun items => (hfeed _).trans (hupon items)⟩
  · -- an open frame reads the token, whatever lies below it
    have hgive : ∀ given items, (root.upon items).give given = (root.give given).upon items := by
      intro given items
      cases given <;> rfl
    let b : Builder := ⟨root, frame :: outer, expectation, previous, anonymous⟩
    have hstart : ∀ level, { b with root := level } = b.atop {} level (frame :: outer) := fun level =>
      (atop_empty b level (frame :: outer)).symm
    rcases feed_atop b frame outer token with ⟨e, hfeed⟩ | ⟨core, frames, -, -, hfeed⟩ | ⟨core, given, -, hfeed⟩
    · have hread : Builder.feed { b with root := root } token = .error e := by rw [hstart, hfeed]
      cases hread.symm.trans h
    · have hread : ∀ level, Builder.feed { b with root := level } token = .ok (core.on level frames) := by
        intro level
        rw [hstart, hfeed, atop_empty]
      obtain rfl := Except.ok.inj ((hread root).symm.trans h)
      exact ⟨rfl, fun items => hread (root.upon items)⟩
    · have hread : ∀ level,
          Builder.feed { b with root := level } token = .ok (core.on (level.give given) []) := by
        intro level
        rw [hstart, hfeed, atop_empty]
      obtain rfl := Except.ok.inj ((hread root).symm.trans h)
      refine ⟨by cases given <;> rfl, fun items => (hread (root.upon items)).trans ?_⟩
      rw [hgive]
      rfl

end Builder

/-! ## Where the statement ends -/

/-- A line is closed over items as it is closed alone, and its node is welded to them. -/
theorem Level.closeLine_upon {level closed : Level} {items : List Item} {node welded : Node}
    (h : level.closeLine = .ok closed) (hlines : closed.lines = node :: level.lines)
    (hweld : Line.weldFrom [node] none items = .ok (some welded)) :
    (level.upon items).closeLine = .ok { closed with lines := welded :: level.lines } := by
  obtain ⟨expression, hexpression, hline, rfl⟩ := weld_of_closeLine h hlines
  have hkept : expression.lines = level.lines := closeExpression_lines hexpression
  rw [closeLine, closeExpression_upon, hexpression]
  change Line.weldFrom [] none (expression.items ++ items) >>= _ = _
  rw [Line.weldFrom_append hline, hweld, ← hkept]
  rfl

namespace Builder

variable {b r : Builder}

theorem Ready.upon (h : Ready b r) (hb : b.frames = []) :
    r.root.lines = b.root.lines ∧ ∀ items, Ready (b.upon items) (r.upon items) := by
  cases h with
  | any h => exact ⟨rfl, fun items => .any h⟩
  | otherwise h => exact ⟨rfl, fun items => .otherwise h⟩
  | declared hexpectation hdecl =>
    rcases b with ⟨root, frames, expectation, previous, anonymous⟩
    obtain rfl : frames = [] := hb
    exact ⟨rfl, fun items => .declared hexpectation hdecl⟩

variable {items : List Item} {node welded : Node} {tokens : List Token} {ending : Option Span}

/-- **One statement over waiting parts is welded to them.** Its tokens may end it before they end, but no
`;` among them ends an empty statement. -/
theorem readBy_upon (hweld : Line.weldFrom [node] none items = .ok (some welded)) (hlines : b.root.lines = [])
    (hblock : b.frames = [] → b.expectation = .otherwise → b.root.items ≠ [])
    (hseparator : ∀ before span after, tokens = before ++ ⟨.separator, span⟩ :: after →
      b.readBy .counted before none ≠ .ok { body := [] })
    (h : b.readBy .counted tokens ending = .ok { body := [node] }) :
    (b.upon items).readBy .counted tokens ending = .ok { body := [welded] } := by
  induction tokens generalizing b with
  | nil =>
    have h : b.finish ending = .ok { body := [node] } := h
    change (b.upon items).finish ending = _
    obtain ⟨r, closed, hready, hframes, hgroups, hclosed, hbody⟩ := finish_eq_ok.mp h
    obtain ⟨hroot, hupon⟩ := hready.upon hframes
    have hclosedLines : closed.lines = node :: r.root.lines := by
      simpa [hroot, hlines, List.reverse_eq_cons_iff] using hbody.symm
    refine finish_eq_ok.mpr ⟨_, _, hupon items, hframes, hgroups,
      Level.closeLine_upon hclosed hclosedLines hweld, ?_⟩
    simp [hroot, hlines]
  | cons token rest ih =>
    by_cases hends : b.EndsStatement token
    · -- The statement ends here, and nothing comes behind it.
      obtain ⟨r, closed, hready, hclosed, hline, hrest⟩ := exists_closed hends (hblock hends.1)
        (fun hkind => hseparator [] token.span rest (by rw [← hkind]; rfl)) h
      obtain ⟨hroot, hupon⟩ := hready.upon hends.1
      have hclosed' := Level.closeLine_upon hclosed (by rw [hline, hroot, hlines]) hweld
      have hends' : (b.upon items).EndsStatement token := hends
      refine (readBy_ends hends').mpr ⟨_, _, hupon items, hclosed', ?_⟩
      refine (readBy_closed hclosed' (token :: rest) ending).trans ?_
      change (readBy .counted { r with root := { groups := closed.groups } } _ _).map _ = _
      rw [hrest, hroot, hlines]
      rfl
    · rw [readBy_cons] at h
      obtain ⟨next, hnext, h⟩ := bind_eq_ok_iff.mp h
      obtain ⟨hnextLines, hupon⟩ := feed_upon hends hnext
      rw [readBy_cons, hupon, ok_bind]
      refine ih (hnextLines.trans hlines) ?_ ?_ h
      · intro hframes hotherwise
        obtain ⟨body, place, above, hitems⟩ := block_of_feed hnext hotherwise
        rw [← level_of_frames hframes, hitems]
        exact List.cons_ne_nil _ _
      · intro before span after hrest hempty
        refine hseparator (token :: before) span after (by rw [hrest, List.cons_append]) ?_
        rw [readBy_cons, hnext]
        exact hempty

end Builder

end SlotScript
