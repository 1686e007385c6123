import SlotScript.Proofs.Tree.Conservation
import SlotScript.Proofs.Tree.Upon

/-!
# An `if` with two branches

Between `if (…)` and `else` the branch stands without braces, and its tokens are read over the head that
waits. An `else` finds its `if` past finished nodes only. A branch that is an expression or a block is one
node when the `else` comes. An assignment is not: its head waits for the end of the line, stands between the
`else` and the `if`, and the `else` is refused for want of an `if`, although there is one.

**Theorem (`ofTokens_branch`).** If three lists of tokens make one statement each, then `if (`, the first,
`)`, the second, `else` and the third make an `if` of the three, provided that an `else` may come behind the
second (`Builder.TakesElse`) and that a `;` ends neither the condition nor an empty statement behind the
`else`.

**Theorem (`ofTokens_branch_stray`).** Behind an assignment, a loop, a named function and an `if` with two
branches the `else` of the `if` around them is refused.

The condition is read in the frame of its header as it is read alone (`foldlM_head`). The first branch is
read over that head (`foldlM_branch`), as no token of it ends it: a `;` would stand outside all delimiters,
and behind a block there would be nothing but parentheses (`TakesElse.quiet`). The second branch is read over
the head, the first branch and the `else`, and may end before its tokens do (`readBy_upon`).
-/

namespace SlotScript

/-! ## Assignments -/

/-- No assignment of the level waits for its value. -/
def Level.Unassigned (level : Level) : Prop := ∀ item ∈ level.items, item.isAssign = false

theorem Level.Unassigned.item {level : Level} (h : level.Unassigned) {item : Item}
    (hitem : item.isAssign = false) : (level.item item).Unassigned :=
  List.forall_mem_cons.mpr ⟨hitem, h⟩

theorem Level.Unassigned.closeExpression {level closed : Level} (h : level.Unassigned)
    (hclosed : level.closeExpression = .ok closed) : closed.Unassigned := by
  rcases closeExpression_eq_ok hclosed with ⟨-, rfl⟩ | ⟨node, -, rfl⟩
  · exact h
  · exact h.item rfl

theorem Level.unassigned_closed {level closed : Level} (hclosed : level.closeLine = .ok closed) :
    closed.Unassigned := by
  intro item hitem
  rw [(closeLine_empty hclosed).2] at hitem
  cases hitem

namespace Builder

variable {b b' : Builder}

theorem unassigned_setLevel {level : Level} (hb : b.root.Unassigned)
    (hlevel : b.level.Unassigned → level.Unassigned) : (b.setLevel level).root.Unassigned := by
  rcases b with ⟨root, _ | ⟨frame, outer⟩, expectation, previous, anonymous⟩
  · exact hlevel hb
  · exact hb

theorem unassigned_item {item : Item} (hb : b.root.Unassigned) (hitem : item.isAssign = false) :
    (b.mapLevel (·.item item)).root.Unassigned :=
  unassigned_setLevel hb fun h => h.item hitem

theorem unassigned_tryLevel {f : Level → Except BuildError Level}
    (hf : ∀ {level after}, level.Unassigned → f level = .ok after → after.Unassigned)
    (hb : b.root.Unassigned) (hok : b.tryLevel f = .ok b') : b'.root.Unassigned := by
  obtain ⟨level, hlevel, rfl⟩ := tryLevel_eq_ok hok
  exact unassigned_setLevel hb fun h => hf h hlevel

theorem unassigned_handle {previous : Previous} {token : Token} (htoken : token.kind ≠ .word "=")
    (hb : b.root.Unassigned) (hok : b.handle previous token = .ok b') : b'.root.Unassigned := by
  have hline : ∀ {level after : Level}, level.Unassigned → level.closeLine = .ok after →
      after.Unassigned := fun _ hclosed => Level.unassigned_closed hclosed
  have hpart : ∀ {level after : Level}, level.Unassigned → level.closePart = .ok after →
      after.Unassigned := by
    intro level after _ hpart
    obtain ⟨closed, part, hclosed, -, rfl⟩ := Level.closePart_eq_ok hpart
    have hunassigned : closed.Unassigned := Level.unassigned_closed hclosed
    exact hunassigned
  obtain ⟨act, hact, heq⟩ := exists_act previous token
  rw [heq] at hok
  cases hact with
  | operand node =>
    obtain rfl := Except.ok.inj hok
    exact unassigned_setLevel hb fun h => h
  | operator op base =>
    obtain rfl := Except.ok.inj hok
    exact unassigned_setLevel hb fun h => h
  | openParen =>
    obtain rfl := Except.ok.inj hok
    unfold openParen
    split
    · exact unassigned_setLevel hb fun h => h
    · exact unassigned_setLevel hb fun h => h
  | closeParen =>
    cases closesParen hok with
    | group => exact unassigned_setLevel hb fun h => h
    | call outer => exact unassigned_setLevel (b := { b with frames := outer }) hb fun h => h
    | header outer _ _ hitem =>
      refine unassigned_item (b := { b with frames := outer }) hb ?_
      unfold headerItem at hitem
      split at hitem <;> cases hitem <;> rfl
    | params => exact hb
  | closeBrace =>
    cases closesBrace hok with
    | block outer => exact unassigned_item (b := { b with frames := outer }) hb rfl
    | function outer => exact unassigned_setLevel (b := { b with frames := outer }) hb fun h => h
  | comma => exact unassigned_tryLevel hpart hb (comma_eq_ok hok).2.2
  | equals h => exact absurd h htoken
  | semicolon =>
    obtain ⟨-, ⟨hok, -⟩ | ⟨hok, -⟩⟩ := semicolon_eq_ok hok
    · exact unassigned_tryLevel hline hb hok
    · exact unassigned_tryLevel hpart hb hok
  | function keyword =>
    obtain rfl := Except.ok.inj hok
    exact hb
  | openBrace =>
    obtain ⟨level, hlevel, rfl⟩ := openBrace_eq_ok hok
    exact unassigned_setLevel hb fun h => h.closeExpression hlevel
  | start expectation =>
    obtain ⟨level, hlevel, rfl⟩ := start_eq_ok hok
    exact unassigned_setLevel hb fun h => h.closeExpression hlevel
  | otherwise =>
    obtain ⟨level, node, items, hlevel, -, rfl⟩ := otherwise_eq_ok hok
    exact unassigned_item (unassigned_setLevel hb fun h => h.closeExpression hlevel) rfl
  | nothing =>
    obtain rfl := Except.ok.inj hok
    exact hb
  | fails e => cases hok

/-- Only a `=` makes an assignment wait for its value. -/
theorem unassigned_feed {token : Token} (htoken : token.kind ≠ .word "=") (hb : b.root.Unassigned)
    (hok : b.feed token = .ok b') : b'.root.Unassigned := by
  have hb : (b.past token).root.Unassigned := hb
  cases fed hok with
  | handled _ h => exact unassigned_handle htoken hb h
  | header => exact hb
  | name _ _ hlevel => exact unassigned_setLevel hb fun h => h.closeExpression hlevel
  | unnamed => exact hb
  | params => exact hb
  | value => exact hb
  | body => exact unassigned_item hb rfl
  | target => exact hb
  | assigned _ hkind => exact absurd hkind htoken
  | declared _ _ hdeclared h =>
    obtain ⟨-, rfl⟩ := declareBare_eq_ok hdeclared
    exact unassigned_handle htoken (unassigned_item hb rfl) h
  | branch _ _ h => exact unassigned_handle htoken hb h
  | ended _ _ hlevel h =>
    exact unassigned_handle htoken
      (unassigned_setLevel hb fun _ => Level.unassigned_closed hlevel) h

theorem unassigned_foldlM {tokens : List Token} (htokens : ∀ token ∈ tokens, token.kind ≠ .word "=")
    (hb : b.root.Unassigned) (hok : tokens.foldlM feed b = .ok b') : b'.root.Unassigned := by
  induction tokens generalizing b with
  | nil =>
    obtain rfl : b = b' := Except.ok.inj hok
    exact hb
  | cons token rest ih =>
    obtain ⟨next, hnext, hok⟩ := bind_eq_ok_iff.mp hok
    obtain ⟨htoken, hrest⟩ := List.forall_mem_cons.mp htokens
    exact ih hrest (unassigned_feed htoken hb hnext) hok

/-! ## Separators -/

/-- Whether every `;` among the tokens stands inside delimiters; `stack` are those that are open before. -/
def enclosesSeparators (stack : List Char) : List Token → Bool
  | [] => true
  | token :: rest =>
    (token.kind ≠ .separator || stack ≠ []) &&
      match nestKind stack token.kind with
      | some after => enclosesSeparators after rest
      | none => false

/-- A statement is completed by nothing, or by a declaration without a value. -/
theorem Ready.root {r : Builder} (h : Ready b r) (hb : b.frames = []) :
    r.root = b.root ∨ ∃ node, r.root = b.root.item (.node node) := by
  cases h with
  | any | otherwise => exact .inl rfl
  | declared =>
    rcases b with ⟨root, frames, expectation, previous, anonymous⟩
    obtain rfl : frames = [] := hb
    exact .inr ⟨_, rfl⟩

/-- Where a `;` can be read and no frame is open, nothing is. -/
theorem stack_of_separator {token : Token} (hkind : token.kind = .separator) (hb : b.frames = [])
    (hok : b.feed token = .ok b') : b.stack = [] := by
  obtain ⟨kind, span⟩ := token
  obtain rfl : kind = .separator := hkind
  obtain ⟨r, closed, hready, hclosed, hok⟩ := (feed_ends ⟨hb, .inl rfl⟩).mp hok
  have hgroups : closed.groups = [] := groups_of_separator (hready.frames hb) hready.expectation hok
  have hroot : b.root.groups = [] := by
    rw [← hgroups, Level.closeLine_groups hclosed]
    rcases hready.root hb with heq | ⟨node, heq⟩
    · rw [heq]
    · rw [heq]
      rfl
  rw [stack, hb, stackOf, Level.stack, hroot]
  rfl

theorem enclosesSeparators_cons {token : Token} {rest : List Token}
    (h : enclosesSeparators b.stack (token :: rest) = true) (hok : b.feed token = .ok b') :
    ¬ (b.frames = [] ∧ token.kind = .separator) ∧ enclosesSeparators b'.stack rest = true := by
  simp only [enclosesSeparators, stack_feed hok, Bool.and_eq_true, Bool.or_eq_true, decide_eq_true_eq] at h
  refine ⟨fun ⟨hb, hkind⟩ => ?_, h.2⟩
  rcases h.1 with hne | hne
  · exact hne hkind
  · exact hne (stack_of_separator hkind hb hok)

/-- Tokens whose separators stand inside delimiters are read in any frame. -/
theorem foldlM_hosted {below : Builder} {base : Level} {tokens : List Token}
    (h : enclosesSeparators b.stack tokens = true) (hok : tokens.foldlM feed b = .ok b') :
    tokens.foldlM feed (b.hosted below base) = .ok (b'.hosted below base) := by
  induction tokens generalizing b with
  | nil =>
    obtain rfl : b = b' := Except.ok.inj hok
    rfl
  | cons token rest ih =>
    obtain ⟨next, hnext, hok⟩ := bind_eq_ok_iff.mp hok
    obtain ⟨hseparator, hrest⟩ := enclosesSeparators_cons h hnext
    have hlifts : Lifts below base (b.feed token) ((b.hosted below base).feed token) :=
      lifts_feed fun hb hkind => absurd ⟨hb, hkind⟩ hseparator
    rw [hnext] at hlifts
    have hfeed : (b.hosted below base).feed token = .ok (next.hosted below base) := hlifts
    rw [List.foldlM_cons, hfeed]
    exact ih hrest hok

/-- A program has no parts. -/
theorem root_parts {tokens : List Token} {previous : Previous} {number : Nat}
    (hlive : ∀ token ∈ tokens, token.kind ≠ .eof)
    (hok : tokens.foldlM feed { previous := previous, anonymous := number } = .ok b) (hb : b.frames = []) :
    b.root.parts = [] := by
  have hclear : Clear { previous := previous, anonymous := number } := ⟨by simp [Expectation.waits], rfl⟩
  have hframes := (foldlM_feed_total hclear hlive hok).1.2
  rw [hb] at hframes
  exact hframes

/-! ## The head of an `if` -/

/-- A closed header leaves the head of its construct. -/
theorem foldlM_head {tokens : List Token} {cond : Node} (hlive : ∀ token ∈ tokens, token.kind ≠ .eof)
    (hread : readBy .counted {} tokens none = .ok { body := [cond] })
    (henclosed : enclosesSeparators [] tokens = true) (place opening closing : Span) :
    (⟨.word "if", place⟩ :: ⟨.word "(", opening⟩ :: (tokens ++ [⟨.word ")", closing⟩])).foldlM feed {} =
      .ok (upon { previous := .closedHeader, anonymous := unnamedIn tokens } [.branch cond place]) := by
  -- After the `(`, as at the start, no operand stands before.
  have hparen := readBy_previous (b := {}) (p := .token (.word "(")) (q := .start)
    (by decide) (by decide) rfl .counted tokens none
  obtain ⟨b, hb, hfinish⟩ := bind_eq_ok_iff.mp (hparen.trans hread)
  rw [feedBy_counted] at hb
  obtain ⟨-, -, -, hframes, -⟩ := finish_eq_ok.mp hfinish
  obtain ⟨settled, root, hcloses⟩ := exists_closes hfinish ⟨.word ")", closing⟩ (by simp) (by simp)
  let below : Builder := { frames := [{ opener := .header .branch, span := place }] }
  have hopened : feed ⟨{}, [], .header .branch place, .token (.word "if"), 0⟩ ⟨.word "(", opening⟩ =
      .ok (hosted { previous := .token (.word "(") } below {}) := rfl
  have hinside : tokens.foldlM feed (hosted { previous := .token (.word "(") } below {}) =
      .ok (b.hosted below {}) := foldlM_hosted henclosed hb
  have hcount : b.anonymous = unnamedIn tokens := (anonymous_foldlM hb).trans (Nat.zero_add _)
  rw [List.foldlM_cons]
  change List.foldlM feed ⟨{}, [], .header .branch place, .token (.word "if"), 0⟩ _ = _
  rw [List.foldlM_cons, hopened, ok_bind, List.foldlM_append, hinside, ok_bind, List.foldlM_cons,
    hcloses.feed]
  simp only [List.foldlM_nil, bind_pure]
  have hparts : settled.root.parts = [] := hcloses.parts.trans (root_parts hlive hb hframes)
  have hlines : root.lines = [cond] := by
    simpa [List.reverse_eq_cons_iff] using (congrArg Program.body hcloses.body).symm
  rcases settled with ⟨level, frames, expectation, previous, anonymous⟩
  obtain rfl : frames = [] := hcloses.frames
  obtain rfl : expectation = .any := hcloses.expectation
  obtain rfl : anonymous = unnamedIn tokens := hcloses.anonymous.trans hcount
  have hline : level.closeLine = .ok root := hcloses.closeLine
  have hpart : (level.onto {}).closePart = .ok { root with lines := [], parts := [some cond] } := by
    have hclosed : (level.onto {}).closeLine = .ok (root.onto {}) := by
      rw [Level.closeLine_onto, hline]
      rfl
    have hnone : root.parts = [] := (Level.closeLine_parts hline).trans hparts
    rw [Level.closePart, hclosed]
    simp [Level.onto, hlines, hnone, Level.partOfLines, pure, Except.pure]
  have hopen : level.groups = [] := hcloses.groups
  rcases level with ⟨run, items, lines, parts, groups⟩
  obtain rfl : groups = [] := hopen
  change (Level.closePart _ >>= _) = _
  rw [hpart]
  rfl

/-! ## The branch before the `else` -/

/-- Behind the statement an `else` may come: it is no construct, no named function and no assignment with a
`=`, no `;` ends it, and if it is a block then its last token is the `\x7d`. -/
structure TakesElse (tokens : List Token) (node : Node) : Prop where
  enclosed : enclosesSeparators [] tokens = true
  headed : node.isHeaded = false
  assigned : node.isAssignment = true → ∀ token ∈ tokens, token.kind ≠ .word "="
  block : ∀ body span, node = .block body span → tokens.getLast?.map (·.kind) = some (.word "\x7d")

theorem enclosesSeparators_foldlM {tokens rest : List Token}
    (h : enclosesSeparators b.stack (tokens ++ rest) = true) (hok : tokens.foldlM feed b = .ok b') :
    enclosesSeparators b'.stack rest = true := by
  induction tokens generalizing b with
  | nil =>
    obtain rfl : b = b' := Except.ok.inj hok
    exact h
  | cons token more ih =>
    obtain ⟨next, hnext, hok⟩ := bind_eq_ok_iff.mp hok
    exact ih (enclosesSeparators_cons h hnext).2 hok

/-- Where an `else` is waited for, a block has just been read. -/
theorem block_of_foldlM {tokens : List Token} (hb : b.expectation = .any)
    (hok : tokens.foldlM feed b = .ok b') (hotherwise : b'.expectation = .otherwise) :
    ∃ body place items, b'.level.items = .node (.block body place) :: items := by
  rcases tokens.eq_nil_or_concat with rfl | ⟨front, last, rfl⟩
  · obtain rfl : b = b' := Except.ok.inj hok
    cases hb.symm.trans hotherwise
  · rw [List.concat_eq_append, List.foldlM_append] at hok
    obtain ⟨middle, -, hok⟩ := bind_eq_ok_iff.mp hok
    obtain ⟨next, hnext, hok⟩ := bind_eq_ok_iff.mp hok
    obtain rfl : next = b' := Except.ok.inj hok
    exact block_of_feed hnext hotherwise

/-- The statement that a line makes is its only item, if no head and no `=` makes it. -/
theorem exists_expression {level closed : Level} {node : Node} (hclosed : level.closeLine = .ok closed)
    (hlines : closed.lines = node :: level.lines) (hheaded : node.isHeaded = false)
    (hassigned : node.isAssignment = true → level.Unassigned) :
    ∃ expression, level.closeExpression = .ok expression ∧ expression.items = [.node node] := by
  obtain ⟨expression, hexpression, hline, -⟩ := Level.weld_of_closeLine hclosed hlines
  refine ⟨expression, hexpression, ?_⟩
  obtain ⟨-, ⟨hwaiting, -⟩ | ⟨-, hitems⟩⟩ := Line.weldFrom_whole hline hheaded fun hnode =>
    (hassigned hnode).closeExpression hexpression
  · cases hwaiting
  · exact hitems

/-- No token of such a statement ends it. -/
theorem TakesElse.quiet {before after : List Token} {token : Token} {node : Node} {start middle : Builder}
    (hstart : start.expectation = .any) (hstack : start.stack = []) (hunassigned : start.root.Unassigned)
    (h : TakesElse (before ++ token :: after) node)
    (hread : start.readBy .counted (before ++ token :: after) none = .ok { body := [node] })
    (hmiddle : before.foldlM feed start = .ok middle) : ¬ middle.EndsStatement token := by
  intro hends
  have hrest : middle.readBy .counted (token :: after) none = .ok { body := [node] } := by
    rw [readBy, feedBy_counted, List.foldlM_append, hmiddle, ok_bind] at hread
    rw [readBy, feedBy_counted, hread]
  obtain ⟨next, hnext, -⟩ := bind_eq_ok_iff.mp ((readBy_cons _ _ _ _).symm.trans hrest)
  have henclosed := enclosesSeparators_foldlM (hstack ▸ h.enclosed) hmiddle
  have hkind : token.kind ≠ .separator := fun hkind =>
    (enclosesSeparators_cons henclosed hnext).1 ⟨hends.1, hkind⟩
  -- So it comes behind a block, which is the statement.
  obtain ⟨hotherwise, -⟩ := hends.2.resolve_left hkind
  obtain ⟨body, place, items, hitems⟩ := block_of_foldlM hstart hmiddle hotherwise
  rw [level_of_frames hends.1] at hitems
  obtain ⟨r, closed, hready, hclosed, hline, hempty⟩ := exists_closed hends
    (fun _ => by simp [hitems]) (fun h => absurd h hkind) hrest
  have hroot : r.root = middle.root := by
    cases hready with
    | any | otherwise => rfl
    | declared hdeclared => cases hdeclared.symm.trans hotherwise
  rw [hroot] at hclosed
  have hlines : closed.lines = node :: middle.root.lines := by
    obtain ⟨first, hfirst⟩ := Level.exists_line hclosed (.inr (by simp [hitems]))
    rw [hline] at hfirst
    obtain ⟨rfl, hnil⟩ := List.cons.inj hfirst
    rw [hline, ← hnil]
  obtain ⟨expression, hexpression, hone⟩ := exists_expression hclosed hlines h.headed fun hnode =>
    unassigned_foldlM (fun token htoken => h.assigned hnode token (by simp [htoken])) hunassigned hmiddle
  have hblock : node = .block body place := by
    rcases Level.closeExpression_eq_ok hexpression with ⟨-, rfl⟩ | ⟨first, -, rfl⟩
    · rw [hitems] at hone
      exact (Item.node.inj (List.cons.inj hone).1).symm
    · simp [hitems] at hone
  -- The last token is a `\x7d`, and it is read behind the statement.
  obtain ⟨front, last, hlast⟩ : ∃ front last, token :: after = front ++ [last] :=
    ⟨_, _, (List.dropLast_append_getLast (List.cons_ne_nil token after)).symm⟩
  have hbrace : last.kind = .word "\x7d" := by
    have := h.block body place hblock
    rw [hlast] at this
    simpa using this
  obtain ⟨kind, span⟩ := last
  obtain rfl : kind = .word "\x7d" := hbrace
  rw [hlast, readBy, feedBy_counted, List.foldlM_append] at hempty
  obtain ⟨last, hlast, hempty⟩ := bind_eq_ok_iff.mp hempty
  obtain ⟨stop, -, hlast⟩ := bind_eq_ok_iff.mp hlast
  obtain ⟨final, hfinal, hlast⟩ := bind_eq_ok_iff.mp hlast
  obtain rfl : final = last := Except.ok.inj hlast
  exact body_ne_nil_of_brace hfinal none hempty

/-- Tokens of which none ends the statement are read over waiting parts as without them. -/
theorem foldlM_upon {tokens : List Token} (hok : tokens.foldlM feed b = .ok b')
    (hquiet : ∀ before token after middle, tokens = before ++ token :: after →
      before.foldlM feed b = .ok middle → ¬ middle.EndsStatement token) :
    b'.root.lines = b.root.lines ∧ ∀ items, tokens.foldlM feed (b.upon items) = .ok (b'.upon items) := by
  induction tokens generalizing b with
  | nil =>
    obtain rfl : b = b' := Except.ok.inj hok
    exact ⟨rfl, fun items => rfl⟩
  | cons token rest ih =>
    obtain ⟨next, hnext, hok⟩ := bind_eq_ok_iff.mp hok
    obtain ⟨hlines, hupon⟩ := feed_upon (hquiet [] token rest b rfl rfl) hnext
    obtain ⟨hrest, hfold⟩ := ih hok fun before token' after middle hsplit hmiddle =>
      hquiet (token :: before) token' after middle (by rw [hsplit, List.cons_append])
        (bind_eq_ok_iff.mpr ⟨next, hnext, hmiddle⟩)
    refine ⟨hrest.trans hlines, fun items => ?_⟩
    rw [List.foldlM_cons, hupon, ok_bind, hfold]

/-- Where the statement is complete, an `else` is read behind it. -/
theorem feed_else {r : Builder} (h : Ready b r) (span : Span) :
    b.feed ⟨.word "else", span⟩ = otherwise { r with previous := .token (.word "else") } span := by
  rcases b with ⟨root, frames, expectation, previous, anonymous⟩
  cases h with
  | any h =>
    obtain rfl : expectation = .any := h
    rfl
  | otherwise h =>
    obtain rfl : expectation = .otherwise := h
    rfl
  | @declared decl name place h hdecl =>
    obtain rfl : expectation = .initializer decl name place := h
    change initializerToken _ previous ⟨.word "else", span⟩ decl name place = _
    rw [initializerToken, if_neg (by simp), declareBare_of_ne hdecl]
    cases frames <;> rfl

/-- **The branch before the `else`.** -/
theorem foldlM_branch {tokens : List Token} {node : Node} {number : Nat}
    (hlive : ∀ token ∈ tokens, token.kind ≠ .eof) (h : TakesElse tokens node)
    (hread : readBy .counted { previous := .closedHeader, anonymous := number } tokens none =
      .ok { body := [node] }) (items : List Item) (span : Span) :
    (tokens ++ [(⟨.word "else", span⟩ : Token)]).foldlM feed
        (upon { previous := .closedHeader, anonymous := number } items) =
      .ok (upon { previous := .token (.word "else"), anonymous := number + unnamedIn tokens }
        (.otherwise span :: .node node :: items)) := by
  let start : Builder := { previous := .closedHeader, anonymous := number }
  have hunassigned : start.root.Unassigned := by simp [Level.Unassigned, start]
  obtain ⟨b, hb, hfinish⟩ := bind_eq_ok_iff.mp hread
  rw [feedBy_counted] at hb
  obtain ⟨hlines, hupon⟩ := foldlM_upon hb fun before token after middle hsplit hmiddle =>
    @TakesElse.quiet before after token node start middle rfl rfl hunassigned (hsplit ▸ h)
      (hsplit ▸ hread) hmiddle
  obtain ⟨r, closed, hready, hframes, hgroups, hclosed, hbody⟩ := finish_eq_ok.mp hfinish
  obtain ⟨hroot, hready'⟩ := hready.upon hframes
  have hparts : r.root.parts = [] := by
    rw [← root_parts hlive hb hframes]
    rcases hready.root hframes with heq | ⟨node, heq⟩
    · rw [heq]
    · rw [heq]
      rfl
  have hnone : r.root.lines = [] := hroot.trans hlines
  have hclosedLines : closed.lines = node :: r.root.lines := by
    simpa [hnone, List.reverse_eq_cons_iff] using (congrArg Program.body hbody).symm
  have hassigned : node.isAssignment = true → r.root.Unassigned := by
    intro hnode
    have hb := unassigned_foldlM (h.assigned hnode) hunassigned hb
    rcases hready.root hframes with heq | ⟨node, heq⟩ <;> rw [heq]
    · exact hb
    · exact hb.item rfl
  obtain ⟨expression, hexpression, hitems⟩ := exists_expression hclosed hclosedLines h.headed hassigned
  have hcount : r.anonymous = number + unnamedIn tokens := hready.anonymous.trans (anonymous_foldlM hb)
  have hrframes : r.frames = [] := hready.frames hframes
  have hany : r.expectation = .any := hready.expectation
  have hone : expression = { items := [.node node] } := by
    have hkept : expression.lines = r.root.lines := Level.closeExpression_lines hexpression
    rcases expression with ⟨run, above, lines, parts, groups⟩
    obtain rfl : run = [] := Level.closeExpression_run hexpression
    obtain rfl : above = [.node node] := hitems
    obtain rfl : lines = [] := hkept.trans hnone
    obtain rfl : parts = [] := (Level.closeExpression_parts hexpression).trans hparts
    obtain rfl : groups = [] := (Level.closeExpression_groups hexpression).trans hgroups
    rfl
  rw [List.foldlM_append, hupon, ok_bind, List.foldlM_cons, feed_else (hready' items)]
  rcases r with ⟨root, frames, expectation, previous, anonymous⟩
  obtain rfl : frames = [] := hrframes
  obtain rfl : expectation = .any := hany
  obtain rfl : anonymous = number + unnamedIn tokens := hcount
  have hclose : (root.upon items).closeExpression = .ok (expression.upon items) := by
    rw [Level.closeExpression_upon, hexpression]
    rfl
  change ((Level.closeExpression (root.upon items) >>= _) >>= _) >>= _ = _
  rw [hclose, hone]
  rfl

/-! ## Both branches -/

/-- Whatever the functions without a name are numbered, the `else` may come. -/
theorem TakesElse.shifted {tokens : List Token} {node : Node} (h : TakesElse tokens node) (n : Nat) :
    TakesElse tokens (node.change (.shifted n)) := by
  obtain ⟨henclosed, hheaded, hassigned, hblock⟩ := h
  refine ⟨henclosed, ?_, ?_, ?_⟩
  · cases node with
    | define name binding => cases binding <;> exact hheaded
    | branch | whileLoop | forLoop => exact hheaded
    | _ => rfl
  · cases node with
    | assign target var decl op => cases op <;> exact hassigned
    | _ => exact fun h => by cases h
  · intro body span h
    cases node with
    | block body span => exact hblock body span rfl
    | _ => cases h

end Builder

/-- **Three statements make an `if` with two branches.** The condition holds no `;` outside delimiters, an
`else` may come behind the first branch, and the second does not begin with an empty statement. The functions
without a name are numbered on. -/
theorem Program.ofTokens_branch {cond yes no : List Token} {c s t : Node}
    (hcond : ∀ token ∈ cond, token.kind ≠ .eof) (hyes : ∀ token ∈ yes, token.kind ≠ .eof)
    (hc : Program.ofTokens cond = .ok { body := [c] }) (hs : Program.ofTokens yes = .ok { body := [s] })
    (ht : Program.ofTokens no = .ok { body := [t] })
    (henclosed : Builder.enclosesSeparators [] cond = true) (helse : Builder.TakesElse yes s)
    (hstarts : ∀ before span after, no = before ++ ⟨.separator, span⟩ :: after →
      ∀ program, Program.ofTokens before = .ok program → program.body ≠ [])
    (place opening closing middle : Span) :
    Program.ofTokens (⟨.word "if", place⟩ :: ⟨.word "(", opening⟩ :: cond ++ ⟨.word ")", closing⟩ :: yes ++
      ⟨.word "else", middle⟩ :: no) =
      .ok { body := [.branch c (s.change (.shifted (Builder.unnamedIn cond)))
        (some (t.change (.shifted (Builder.unnamedIn cond + Builder.unnamedIn yes)))) .blank .blank
        (place.merge t.span)] } := by
  let n := Builder.unnamedIn cond
  let m := n + Builder.unnamedIn yes
  have hhead := Builder.foldlM_head hcond (Program.ofTokens_live hcond ▸ hc) henclosed place opening closing
  have hread : Builder.readBy .counted { previous := .closedHeader, anonymous := n } yes none =
      .ok { body := [s.change (.shifted n)] } := by
    rw [Builder.readBy_fresh rfl rfl, ← Program.ofTokens_live hyes, hs]
    rfl
  have hbranch := Builder.foldlM_branch hyes (helse.shifted n) hread [.branch c place] middle
  let before : List Token := ⟨.word "if", place⟩ :: ⟨.word "(", opening⟩ :: (cond ++ [⟨.word ")", closing⟩]) ++
    (yes ++ [⟨.word "else", middle⟩])
  have hbefore : ∀ token ∈ before, token.kind ≠ .eof := by
    simp only [before, List.cons_append, List.append_assoc, List.nil_append, List.forall_mem_cons,
      List.forall_mem_append, List.not_mem_nil, false_imp_iff, implies_true, and_true]
    exact ⟨by simp, by simp, hcond, by simp, hyes, by simp⟩
  have htokens : ⟨.word "if", place⟩ :: ⟨.word "(", opening⟩ :: cond ++ ⟨.word ")", closing⟩ :: yes ++
      ⟨.word "else", middle⟩ :: no = before ++ no := by simp [before]
  rw [htokens, Program.ofTokens_append hbefore, List.foldlM_append, hhead, ok_bind, hbranch, ok_bind]
  have hspan : (t.change (.shifted m)).span = t.span := Node.span_change _ t
  have hweld : Line.weldFrom [t.change (.shifted m)] none
      [.otherwise middle, .node (s.change (.shifted n)), .branch c place] =
      .ok (some (.branch c (s.change (.shifted n)) (some (t.change (.shifted m))) .blank .blank
        (place.merge t.span))) := by
    simp [Line.weldFrom, Item.admitsElse, Line.takeOne, hspan]
  refine Builder.readBy_upon hweld rfl (by simp) ?_ ?_
  · intro first span after hfirst hempty
    have hno : no = first ++ ⟨.separator, span⟩ :: (after ++ no.dropWhile (·.kind ≠ .eof)) := by
      rw [← List.cons_append, ← List.append_assoc, ← hfirst, List.takeWhile_append_dropWhile]
    have hlive : ∀ token ∈ first, token.kind ≠ .eof := by
      intro token htoken
      have hmem : token ∈ no.takeWhile (·.kind ≠ .eof) := by
        rw [hfirst]
        exact List.mem_append_left _ htoken
      simpa using List.mem_takeWhile_imp hmem
    rw [Builder.readBy_fresh rfl rfl, ← Program.ofTokens_live hlive] at hempty
    obtain ⟨program, hprogram, hnil⟩ := map_eq_ok_iff.mp hempty
    refine hstarts first span _ hno program hprogram ?_
    have hbody := congrArg Program.body hnil
    simpa [Program.change] using hbody
  · rw [Builder.readBy_fresh rfl rfl, ← Program.ofTokens_eq_readBy, ht]
    rfl

/-- `if (a) f(def() \x7b 1 \x7d) else g = def() \x7b 2 \x7d`, with a function without a name in each branch: the
second is `anon#1`. -/
theorem Program.ofTokens_branch_closures :
    let cond : List Token := [⟨.word "a", .nowhere⟩]
    let yes : List Token := [.word "f", .word "(", .word "def", .word "(", .word ")", .word "\x7b", .int 1,
      .word "\x7d", .word ")"].map (⟨·, .nowhere⟩)
    let no : List Token := [.word "g", .word "=", .word "def", .word "(", .word ")", .word "\x7b", .int 2,
      .word "\x7d"].map (⟨·, .nowhere⟩)
    let function (name : String) (value : Int64) : Node :=
      .define name none [] (.block [.int value .nowhere] .nowhere) .blank .nowhere
    let c : Node := .ident "a" .unresolved .nowhere
    let s : Node := .call (.ident "f" .unresolved .nowhere) [function "anon#0" 1] .nowhere
    let t (name : String) : Node := .assign "g" .unresolved .plain none (function name 2) .nowhere
    (∀ token ∈ cond, token.kind ≠ .eof) ∧ (∀ token ∈ yes, token.kind ≠ .eof) ∧
      Program.ofTokens cond = .ok { body := [c] } ∧ Program.ofTokens yes = .ok { body := [s] } ∧
      Program.ofTokens no = .ok { body := [t "anon#0"] } ∧
      Builder.enclosesSeparators [] cond = true ∧ Builder.TakesElse yes s ∧
      (∀ before span after, no = before ++ ⟨.separator, span⟩ :: after →
        ∀ program, Program.ofTokens before = .ok program → program.body ≠ []) ∧
      Program.ofTokens (⟨.word "if", .nowhere⟩ :: ⟨.word "(", .nowhere⟩ :: cond ++ ⟨.word ")", .nowhere⟩ :: yes ++
        ⟨.word "else", .nowhere⟩ :: no) =
        .ok { body := [.branch c s (some (t "anon#1")) .blank .blank .nowhere] } := by
  intro cond yes no function c s t
  have hcond : ∀ token ∈ cond, token.kind ≠ .eof := by decide
  have hyes : ∀ token ∈ yes, token.kind ≠ .eof := by decide
  have hc : Program.ofTokens cond = .ok { body := [c] } := by cbv
  have hs : Program.ofTokens yes = .ok { body := [s] } := by cbv
  have ht : Program.ofTokens no = .ok { body := [t "anon#0"] } := by cbv
  have henclosed : Builder.enclosesSeparators [] cond = true := by decide
  have helse : Builder.TakesElse yes s := ⟨by decide, rfl, by simp [s, Node.isAssignment], by simp [s]⟩
  have hstarts : ∀ before span after, no = before ++ ⟨.separator, span⟩ :: after →
      ∀ program, Program.ofTokens before = .ok program → program.body ≠ [] := by
    intro before span after hno
    have hmem : (⟨.separator, span⟩ : Token) ∈ no := by simp [hno]
    simp [no] at hmem
  refine ⟨hcond, hyes, hc, hs, ht, henclosed, helse, hstarts, ?_⟩
  rw [Program.ofTokens_branch hcond hyes hc hs ht henclosed helse hstarts]
  have hcount : Builder.unnamedIn cond = 0 ∧ Builder.unnamedIn yes = 1 := by decide +kernel
  have hfirst : renumbered 0 "anon#0" = "anon#0" := renumbered_counted 0 0
  have hsecond : renumbered 1 "anon#0" = "anon#1" := renumbered_counted 1 0
  have hspan : Span.nowhere.merge (t "anon#0").span = .nowhere := rfl
  rw [hcount.1, hcount.2, hspan]
  simp [s, t, function, Node.change, Change.shifted, Motion.change, Motion.still, hfirst, hsecond]

/-- Each of these parts makes one statement, and no `if` is made of them. Behind an assignment, a loop, a
named function or an `if` with two branches the `else` does not find its `if`: what waits in between stops the
search. A `;`, or what stands behind a block, ends the `if` before its `else`, or leaves it without one. -/
theorem Program.ofTokens_branch_stray :
    let read (kinds : List TokenKind) := Program.ofTokens (kinds.map (⟨·, .nowhere⟩))
    let branched (cond yes no : List TokenKind) :=
      read (.word "if" :: .word "(" :: cond ++ .word ")" :: yes ++ .word "else" :: no)
    let name (text : String) : Node := .ident text .unresolved .nowhere
    (read [.word "a"] = .ok { body := [name "a"] } ∧ read [.word "b"] = .ok { body := [name "b"] } ∧
      ∀ branch ∈ [
          ([.word "x", .word "=", .int 1], Node.assign "x" .unresolved .plain none (.int 1 .nowhere) .nowhere),
          ([.word "while", .word "(", .word "x", .word ")", .word "y"],
            .whileLoop (name "x") (name "y") .blank .blank .nowhere),
          ([.word "def", .word "f", .word "(", .word ")", .word "\x7b", .word "\x7d"],
            .define "f" (some .unresolved) [] (.block [] .nowhere) .blank .nowhere),
          ([.word "if", .word "(", .word "x", .word ")", .word "y", .word "else", .word "z"],
            .branch (name "x") (name "y") (some (name "z")) .blank .blank .nowhere)],
        read branch.1 = .ok { body := [branch.2] } ∧
          branched [.word "a"] branch.1 [.word "b"] = .error { fault := .strayElse, span := .nowhere }) ∧
    ∀ parts ∈ [
        ([.word "a"], [.word "x", .separator], [.word "b"]),
        ([.word "a"], [.word "\x7b", .word "\x7d", .word "(", .word ")"], [.word "b"]),
        ([.word "a", .separator], [.word "x"], [.word "b"]),
        ([.word "a"], [.word "x"], [.separator, .word "b"])],
      (∀ part ∈ [parts.1, parts.2.1, parts.2.2], (read part).toOption.map (·.body.length) = some 1) ∧
        (branched parts.1 parts.2.1 parts.2.2).isOk = false := by
  intro read branched name
  refine ⟨?_, by decide +kernel⟩
  simp only [read, branched, name, List.forall_mem_cons, List.not_mem_nil, false_imp_iff, implies_true, and_true]
  refine ⟨?_, ?_, ⟨?_, ?_⟩, ⟨?_, ?_⟩, ⟨?_, ?_⟩, ?_, ?_⟩ <;> cbv

end SlotScript
