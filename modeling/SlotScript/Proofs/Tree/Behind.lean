import SlotScript.Proofs.Tree.Frame

/-!
# What is read behind a part of a run

Once a part of a run is read, the tokens behind it are put on top of it. They do not look at it
until the expression ends, and then the run is folded as a whole. So if another part folds to the
same trees in its place, it can stand there, and the builder ends with the same program.

**Theorem (`Waits.run`).** Let every run that ends the part at hand in a certain way fold to the same
tree with another part in its place. Then the tokens behind it make the same program of both.

The two builders go on side by side, as `core.atop below (level.behind part) frames`, where `level`
holds what has been read behind the part. `Waits` is what holds of it as long as the part waits.
-/

namespace SlotScript

/-- The level with its run put behind a part of a run. -/
def Level.behind (level : Level) (part : Run) : Level := { level with run := level.run ++ part }

/-- Whether the next operator between two operands stands under at most `limit` groups, if nothing
but parentheses comes before it. -/
def loose (limit : Nat) : Nat → List Token → Bool
  | _, [] => true
  | depth, token :: rest =>
    if token.kind = .word "(" then loose limit (depth + 1) rest
    else if token.kind = .word ")" then depth == 0 || loose limit (depth - 1) rest
    else !token.kind.isInfix (.token (.word ")")) || decide (depth ≤ limit)

theorem TokenKind.isInfix_closed {kind : TokenKind} {previous : Previous}
    (h : kind.isInfix previous = true) : kind.isInfix (.token (.word ")")) = true := by
  cases kind with
  | word text =>
    simp only [TokenKind.isInfix] at h ⊢
    split at h <;> simp_all [Previous.endsOperand, Previous.wordEndsOperand]
  | _ => cases h

theorem depth_of_loose {limit depth : Nat} {token : Token} {rest : List Token}
    (h : loose limit depth (token :: rest) = true)
    (htoken : token.kind.isInfix (.token (.word ")")) = true) : depth ≤ limit := by
  have hopen : token.kind ≠ .word "(" := by
    intro hkind
    rw [hkind] at htoken
    exact absurd htoken (by decide)
  have hclose : token.kind ≠ .word ")" := by
    intro hkind
    rw [hkind] at htoken
    exact absurd htoken (by decide)
  rw [loose, if_neg hopen, if_neg hclose, htoken] at h
  simpa using h

/-! ## The end of an expression -/

/-- What the first step returns, the second one returns too, and then `P` holds. -/
def Yields (P : Prop) {α : Type} (x y : Except BuildError α) : Prop :=
  ∀ a, x = .ok a → P ∧ y = .ok a

theorem Yields.bind {P : Prop} {α β : Type} {x y : Except BuildError α} (h : Yields P x y)
    (next : α → Except BuildError β) : Yields P (x >>= next) (y >>= next) := by
  intro b hok
  obtain ⟨a, hx, hnext⟩ := bind_eq_ok_iff.mp hok
  obtain ⟨hp, hy⟩ := h a hx
  exact ⟨hp, bind_eq_ok_iff.mpr ⟨a, hy, hnext⟩⟩

theorem yields_error {P : Prop} {α : Type} {e : BuildError} {y : Except BuildError α} :
    Yields P (.error e) y := by
  intro a hok
  cases hok

/-- The second level ends its expression as the first one does, and then `P` holds. -/
structure Level.Ends (P : Prop) (level other : Level) : Prop where
  groups : other.groups = level.groups
  expression : Yields P level.closeExpression other.closeExpression

namespace Level

variable {P : Prop} {level other : Level}

theorem Ends.line (h : level.Ends P other) : Yields P level.closeLine other.closeLine :=
  h.expression.bind _

theorem Ends.part (h : level.Ends P other) : Yields P level.closePart other.closePart :=
  h.line.bind _

end Level

namespace Builder

section

variable {P : Prop} {level other : Level} (core below : Builder)

theorem opener?_atop_nil : (core.atop below level []).opener? = below.opener? := by
  rcases below with ⟨root, _ | ⟨frame, outer⟩, expectation, previous, anonymous⟩ <;> rfl

theorem atop_nil_tryLevel (f : Level → Except BuildError Level) :
    (core.atop below level []).tryLevel f =
      f level >>= fun after => .ok (core.atop below after []) := by
  rcases below with ⟨root, _ | ⟨frame, outer⟩, expectation, previous, anonymous⟩ <;> rfl

theorem tryLevel_ends {f : Level → Except BuildError Level} (hf : Yields P (f level) (f other)) :
    Yields P ((core.atop below level []).tryLevel f) ((core.atop below other []).tryLevel f) := by
  rw [atop_nil_tryLevel, atop_nil_tryLevel]
  exact hf.bind _

theorem closeParen_ends (h : level.Ends P other) (hgroups : level.groups = []) (span : Span) :
    Yields P ((core.atop below level []).closeParen span)
      ((core.atop below other []).closeParen span) := by
  rw [closeParen, closeParen, level_atop_nil, level_atop_nil, h.groups, hgroups]
  rcases below with ⟨root, _ | ⟨⟨opener, place, level₀⟩, outer⟩, expectation, previous, anonymous⟩
  · exact yields_error
  · cases opener with
    | block head => exact yields_error
    | _ => exact h.part.bind _

theorem closeBrace_ends (h : level.Ends P other) (span : Span) :
    Yields P ((core.atop below level []).closeBrace span)
      ((core.atop below other []).closeBrace span) := by
  rw [closeBrace, closeBrace, level_atop_nil, level_atop_nil, h.groups]
  cases level.groups with
  | cons opening groups => exact yields_error
  | nil =>
    rcases below with ⟨root, _ | ⟨⟨opener, place, level₀⟩, outer⟩, expectation, previous, anonymous⟩
    · exact yields_error
    · cases opener with
      | block head => exact h.line.bind _
      | _ => exact yields_error

theorem comma_ends (h : level.Ends P other) (span : Span) :
    Yields P ((core.atop below level []).comma span) ((core.atop below other []).comma span) := by
  simp only [comma, opener?_atop_nil, level_atop_nil, h.groups]
  split
  · exact tryLevel_ends core below h.part
  · exact tryLevel_ends core below h.part
  · exact yields_error

theorem semicolon_ends (h : level.Ends P other) (span : Span) :
    Yields P ((core.atop below level []).semicolon span)
      ((core.atop below other []).semicolon span) := by
  have hend : Yields P (core.atop below level []).endStatement
      (core.atop below other []).endStatement := by
    simp only [endStatement, level_atop_nil, h.groups]
    split
    · exact yields_error
    · exact tryLevel_ends core below h.line
  simp only [semicolon, opener?_atop_nil, level_atop_nil, h.groups]
  split
  · exact hend
  · exact hend
  · exact tryLevel_ends core below h.part
  · exact yields_error

theorem finish_ends (h : level.Ends P other) (hany : core.expectation = .any)
    (ending : Option Span) :
    Yields P ((core.atop below level []).finish ending)
      ((core.atop below other []).finish ending) := by
  have hsettle : ∀ level, (core.atop below level []).settle ending =
      .ok (core.atop below level []) := by
    intro level
    rw [settle, show (core.atop below level []).expectation = .any from hany]
  rw [finish, finish, hsettle, hsettle]
  rcases below with ⟨root, _ | ⟨frame, outer⟩, expectation, previous, anonymous⟩
  · rcases level with ⟨run, items, lines, parts, groups⟩
    rcases other with ⟨run', items', lines', parts', groups'⟩
    obtain rfl : groups' = groups := h.groups
    cases groups' with
    | cons opening groups => exact yields_error
    | nil => exact h.line.bind _
  · exact yields_error

end

end Builder

/-! ## A part that waits -/

/-- The first operator behind the part, if it stands between two operands, stands under at most
`limit` groups. -/
def Edge (limit : Nat) (run : Run) : Prop :=
  ∀ op p span, run.getLast? = some (.operator op p span) → op.isInfix = true →
    p < (limit + 1) * groupWeight

theorem Edge.cons {limit : Nat} {run : Run} {item : RunItem} (h : Edge limit run)
    (hitem : run = [] → ∀ op p span, item = .operator op p span → op.isInfix = true →
      p < (limit + 1) * groupWeight) : Edge limit (item :: run) := by
  intro op p span hlast hop
  cases run with
  | nil => exact hitem rfl op p span (by simpa using hlast) hop
  | cons next run => exact h op p span (by simpa using hlast) hop

theorem Edge.tail {limit : Nat} {run : Run} {item : RunItem} (h : Edge limit (item :: run)) :
    Edge limit run := by
  intro op p span hlast hop
  cases run with
  | nil => cases hlast
  | cons next run => exact h op p span (by simpa using hlast) hop

/-- Another part can stand in the place of a part: with what is read behind them, they fold to the
same trees, and then `P` holds. -/
structure Stands (limit : Nat) (P : Prop) (part other : Run) : Prop where
  length : 2 ≤ part.length
  fold : ∀ run, Edge limit run →
    Yields P (Run.assemble (run ++ part).reverse) (Run.assemble (run ++ other).reverse)

theorem Stands.ends {limit : Nat} {P : Prop} {part other : Run} (h : Stands limit P part other)
    {level : Level} (hedge : Edge limit level.run) :
    (level.behind part).Ends P (level.behind other) where
  groups := rfl
  expression after hok := by
    have hlength := h.length
    have hclose : ∀ {run node}, Run.assemble (level.run ++ run).reverse = .ok node →
        (level.behind run).closeExpression =
          .ok { level with run := [], items := .node node :: level.items } := by
      intro run node hnode
      rw [Level.closeExpression, Level.behind]
      split
      · rename_i hnil
        have hnil : level.run ++ run = [] := hnil
        simp [hnil, Run.assemble, Run.reduce] at hnode
      · simp only [hnode]
        rfl
    rcases Level.closeExpression_eq_ok hok with ⟨hrun, -⟩ | ⟨node, hnode, rfl⟩
    · have hrun : level.run ++ part = [] := hrun
      simp [List.append_eq_nil_iff.mp hrun] at hlength
    · obtain ⟨hp, hother⟩ := h.fold level.run hedge node hnode
      exact ⟨hp, hclose hother⟩

namespace Builder

/-- What holds while the part waits, with the tokens that still have to come: behind it nothing is
open but calls and functions that are values, and nothing can be called or bound tightly that
stands right behind it. -/
structure Waits (limit : Nat) (core : Builder) (level : Level) (frames : List Frame)
    (rest : List Token) : Prop where
  valued : Valued frames
  expects : frames = [] → core.expectation = .any ∨
    (∃ keyword span, core.expectation = .function keyword span) ∨
    ∃ head close, core.expectation = .body head true close
  edge : Edge limit level.run
  fresh : frames = [] → core.expectation = .any → level.run = [] →
    core.previous.isCallable = false ∧ loose limit level.groups.length rest = true

/-- How the two builders go on: the part is folded and they become one, or it waits further. -/
def GoOn (limit : Nat) (P : Prop) (part other : Run) (below : Builder) (rest : List Token)
    (b : Builder) (step : Except BuildError Builder) : Prop :=
  P ∧ step = .ok b ∨
    ∃ core level frames, Waits limit core level frames rest ∧
      b = core.atop below (level.behind part) frames ∧
      step = .ok (core.atop below (level.behind other) frames)

section

variable {limit : Nat} {P : Prop} {part other : Run} {core below b : Builder} {level : Level}
  {frames : List Frame} {token : Token} {rest : List Token}

theorem Yields.goOn {x y : Except BuildError Builder} (h : Yields P x y) (hok : x = .ok b) :
    GoOn limit P part other below rest b y :=
  Or.inl (h b hok)

/-- The step that was taken with the part is taken with the other one, and both wait further. -/
theorem Waits.goOn {x y : Except BuildError Builder} (h : Waits limit core level frames rest)
    (hok : x = .ok b) (hx : x = .ok (core.atop below (level.behind part) frames))
    (hy : y = .ok (core.atop below (level.behind other) frames)) :
    GoOn limit P part other below rest b y :=
  Or.inr ⟨core, level, frames, h, Except.ok.inj (hok.symm.trans hx), hy⟩

theorem atop_behind_run (run : Run) : (core.atop below (level.behind run) []).level.run =
    level.run ++ run := by
  rw [level_atop_nil]
  rfl

/-! ## Tokens right behind the part -/

/-- A `(` behind the part calls something behind it, or opens a group. -/
theorem Waits.act_openParen (h : Waits limit core level [] (token :: rest)) (below : Builder)
    (hany : core.expectation = .any) (htoken : token.kind = .word "(") :
    ∃ after frames, Waits limit (core.past token) after frames rest ∧ ∀ run,
      ((core.past token).atop below (level.behind run) []).openParen core.previous token.span =
        (core.past token).atop below (after.behind run) frames := by
  rcases called_or_grouped core.previous level.run with
    ⟨callee, items, hcallee, hcallable⟩ | hgroup
  · refine ⟨{ level with run := items },
      [{ opener := .call callee, span := callee.span.merge token.span }],
      ⟨valued_single rfl, by simp, (hcallee ▸ h.edge).tail, by simp⟩, fun run => ?_⟩
    rw [openParen_call (by rw [atop_behind_run, hcallee]; rfl) hcallable, atop_nil_mapLevel]
    rfl
  · refine ⟨{ level with groups := token.span :: level.groups }, [],
      ⟨by simp [Valued], fun _ => Or.inl rfl, h.edge, fun _ _ hnil => ?_⟩, fun run => ?_⟩
    · have hprevious : (Previous.token token.kind).isCallable = false := by
        rw [htoken]
        decide
      have hloose := (h.fresh rfl hany hnil).2
      rw [loose, if_pos htoken] at hloose
      exact ⟨hprevious, hloose⟩
    · rw [openParen_group ?_, atop_nil_mapLevel]
      · rfl
      · intro callee items hcallee
        rw [atop_behind_run] at hcallee
        cases hlevel : level.run with
        | nil => exact (h.fresh rfl hany hlevel).1
        | cons item behind =>
          rw [hlevel, List.cons_append, List.cons.injEq] at hcallee
          exact hgroup callee behind (by rw [hlevel, hcallee.1])

/-- A `)` behind the part closes a group that has been opened behind it. -/
theorem Waits.act_closeParen (h : Waits limit core level [] (token :: rest)) (below : Builder)
    (hany : core.expectation = .any) (htoken : token.kind = .word ")") {opening : Span}
    {groups : List Span} (hgroups : level.groups = opening :: groups) :
    Waits limit (core.past token) { level with groups := groups } [] rest ∧ ∀ run,
      ((core.past token).atop below (level.behind run) []).closeParen token.span =
        .ok ((core.past token).atop below (Level.behind { level with groups := groups } run) []) := by
  constructor
  · refine ⟨by simp [Valued], fun _ => Or.inl rfl, h.edge, fun _ _ hnil => ?_⟩
    have hprevious : (Previous.token token.kind).isCallable = false := by
      rw [htoken]
      decide
    have hloose := (h.fresh rfl hany hnil).2
    rw [loose, if_neg (by simp [htoken]), if_pos htoken, hgroups] at hloose
    exact ⟨hprevious, by simpa using hloose⟩
  · intro run
    rw [closeParen_group (by rw [level_atop_nil]; exact hgroups), atop_nil_mapLevel]
    rfl

/-- A token that meets no expectation, read right behind the part. -/
theorem Waits.act {act : Builder → Except BuildError Builder} (hstands : Stands limit P part other)
    (h : Waits limit core level [] (token :: rest)) (hany : core.expectation = .any)
    (hend : token.kind ≠ .eof) (hact : Act core.previous token act)
    (hok : act ((core.past token).atop below (level.behind part) []) = .ok b) :
    GoOn limit P part other below rest b
      (act ((core.past token).atop below (level.behind other) [])) := by
  have hends := hstands.ends h.edge
  cases hact with
  | operand node =>
    have hwaits : Waits limit (core.past token) (level.operand node) [] rest :=
      ⟨by simp [Valued], fun _ => Or.inl rfl, h.edge.cons (by simp), by simp [Level.operand]⟩
    have hact : ∀ run, ((core.past token).atop below (level.behind run) []).operand node =
        (core.past token).atop below ((level.operand node).behind run) [] :=
      fun run => atop_nil_mapLevel _ _ _ _
    exact hwaits.goOn hok (congrArg Except.ok (hact part)) (congrArg Except.ok (hact other))
  | operator op base hbase hop =>
    have hwaits : Waits limit (core.past token) (level.operator op base token.span) [] rest := by
      refine ⟨by simp [Valued], fun _ => Or.inl rfl, ?_, by simp [Level.operator]⟩
      refine h.edge.cons fun hrun op' p span heq hinfix => ?_
      obtain ⟨rfl, rfl, -⟩ : op = op' ∧ effectivePrecedence base level.groups.length = p ∧ _ := by
        simpa using heq
      have hdepth : level.groups.length ≤ limit :=
        depth_of_loose (h.fresh rfl hany hrun).2 (TokenKind.isInfix_closed (hop.symm.trans hinfix))
      simp only [effectivePrecedence, groupWeight]
      omega
    have hact : ∀ run, ((core.past token).atop below (level.behind run) []).operator op base
        token.span = (core.past token).atop below
          ((level.operator op base token.span).behind run) [] :=
      fun run => atop_nil_mapLevel _ _ _ _
    exact hwaits.goOn hok (congrArg Except.ok (hact part)) (congrArg Except.ok (hact other))
  | openParen htoken =>
    obtain ⟨after, frames, hwaits, hact⟩ := h.act_openParen below hany htoken
    exact hwaits.goOn hok (congrArg Except.ok (hact part)) (congrArg Except.ok (hact other))
  | closeParen htoken =>
    cases hgroups : level.groups with
    | nil => exact Yields.goOn (closeParen_ends _ _ hends hgroups _) hok
    | cons opening groups =>
      obtain ⟨hwaits, hact⟩ := h.act_closeParen below hany htoken hgroups
      exact hwaits.goOn hok (hact part) (hact other)
  | closeBrace => exact Yields.goOn (closeBrace_ends _ _ hends _) hok
  | comma => exact Yields.goOn (comma_ends _ _ hends _) hok
  | equals =>
    -- A name is assigned to only if nothing else stands before the sign.
    have hlength := hstands.length
    simp only [Builder.equals, atop_behind_run] at hok
    split at hok
    · rename_i hnode
      have := congrArg List.length hnode
      simp only [List.length_append, List.length_singleton] at this
      omega
    · cases hok
    · cases hok
  | semicolon => exact Yields.goOn (semicolon_ends _ _ hends _) hok
  | function keyword =>
    have hwaits : Waits limit ((core.past token).expect (.function keyword token.span)) level []
        rest :=
      ⟨h.valued, fun _ => Or.inr (Or.inl ⟨_, _, rfl⟩), h.edge, by simp⟩
    exact hwaits.goOn hok rfl rfl
  | openBrace => exact Yields.goOn ((tryLevel_ends _ _ hends.expression).bind _) hok
  | start expectation => exact Yields.goOn ((tryLevel_ends _ _ hends.expression).bind _) hok
  | otherwise => exact Yields.goOn ((tryLevel_ends _ _ hends.expression).bind _) hok
  | nothing htoken => exact absurd htoken hend
  | fails e => cases hok

/-- A function in the run is a value and waits with it; one with a name ends the expression. -/
theorem Waits.feed_function (hstands : Stands limit P part other)
    (h : Waits limit core level [] (token :: rest)) {keyword : String} {span : Span}
    (hfunction : core.expectation = .function keyword span)
    (hok : (core.atop below (level.behind part) []).feed token = .ok b) :
    GoOn limit P part other below rest b
      ((core.atop below (level.behind other) []).feed token) := by
  have hfeed : ∀ run, (core.atop below (level.behind run) []).feed token =
      ((core.past token).atop below (level.behind run) []).functionToken token keyword span := by
    intro run
    rw [Builder.feed, show (core.atop below (level.behind run) []).expectation =
      .function keyword span from hfunction]
    rfl
  rw [hfeed] at hok ⊢
  cases hname : nameOf? token with
  | some name =>
    simp only [functionToken, hname] at hok ⊢
    exact Yields.goOn ((tryLevel_ends _ _ (hstands.ends h.edge).expression).bind _) hok
  | none =>
    simp only [functionToken, hname, openAt] at hok ⊢
    by_cases hparen : token.kind = .word "("
    · rw [if_pos hparen] at hok ⊢
      exact Waits.goOn ⟨valued_single rfl, by simp, h.edge, by simp⟩ hok rfl rfl
    · rw [if_neg hparen] at hok
      cases hok

/-- The body of a function that is a value is read in a frame of its own. -/
theorem Waits.feed_body (h : Waits limit core level [] (token :: rest)) {head : FunctionHead}
    {close : Span} (hbody : core.expectation = .body head true close)
    (hok : (core.atop below (level.behind part) []).feed token = .ok b) :
    GoOn limit P part other below rest b
      ((core.atop below (level.behind other) []).feed token) := by
  have hfeed : ∀ run, (core.atop below (level.behind run) []).feed token =
      ((core.past token).atop below (level.behind run) []).bodyToken token head true := by
    intro run
    rw [Builder.feed, show (core.atop below (level.behind run) []).expectation =
      .body head true close from hbody]
    rfl
  rw [hfeed] at hok ⊢
  by_cases hbrace : token.kind ≠ .word "\x7b"
  · rw [bodyToken, if_pos hbrace] at hok
    cases hok
  · rw [bodyToken, if_neg hbrace, if_pos rfl] at hok ⊢
    exact Waits.goOn ⟨valued_single rfl, by simp, h.edge, by simp⟩ hok rfl rfl

/-- In a frame above the part a token does not look at the part. -/
theorem Waits.feed_frame {frame : Frame} (h : Waits limit core level (frame :: frames) (token :: rest))
    (hok : (core.atop below (level.behind part) (frame :: frames)).feed token = .ok b) :
    GoOn limit P part other below rest b
      ((core.atop below (level.behind other) (frame :: frames)).feed token) := by
  rcases feed_atop core frame frames token with ⟨e, hfails⟩ | ⟨core', frames', hne, hkeeps, hstep⟩ |
    ⟨core', given, hends, hstep⟩
  · have he := hfails below (level.behind part)
    rw [he] at hok
    cases hok
  · have hwaits : Waits limit core' level frames' rest :=
      ⟨hkeeps h.valued, fun hnil => absurd hnil hne, h.edge, fun hnil => absurd hnil hne⟩
    exact hwaits.goOn hok (hstep below _) (hstep below _)
  · have hwaits : Waits limit core' (level.give given) [] rest := by
      rcases hends h.valued with ⟨node, rfl, -, hany⟩ | ⟨rfl, head, close, hbody⟩
      · exact ⟨by simp [Valued], fun _ => Or.inl hany, h.edge.cons (by simp),
          by simp [Level.give, Level.operand]⟩
      · exact ⟨by simp [Valued], fun _ => Or.inr (Or.inr ⟨head, close, hbody⟩), h.edge,
          fun _ hkind => by simp [hbody] at hkind⟩
    have hgive : ∀ run, (level.behind run).give given = (level.give given).behind run := by
      intro run
      rcases hends h.valued with ⟨node, rfl, -⟩ | ⟨rfl, -⟩ <;> rfl
    exact hwaits.goOn hok (hgive part ▸ hstep below _) (hgive other ▸ hstep below _)

/-- One token: the part is folded, or it waits further. -/
theorem Waits.feed (hstands : Stands limit P part other)
    (h : Waits limit core level frames (token :: rest)) (hend : token.kind ≠ .eof)
    (hok : (core.atop below (level.behind part) frames).feed token = .ok b) :
    GoOn limit P part other below rest b
      ((core.atop below (level.behind other) frames).feed token) := by
  cases frames with
  | nil =>
    rcases h.expects rfl with hany | ⟨keyword, span, hfunction⟩ | ⟨head, close, hbody⟩
    · obtain ⟨act, hact, heq⟩ := exists_act core.previous token
      have hfeed : ∀ run, (core.atop below (level.behind run) []).feed token =
          act ((core.past token).atop below (level.behind run) []) := by
        intro run
        rw [← heq, Builder.feed, show (core.atop below (level.behind run) []).expectation = .any from
          hany]
        rfl
      rw [hfeed] at hok ⊢
      exact h.act hstands hany hend hact hok
    · exact h.feed_function hstands hfunction hok
    · exact h.feed_body hbody hok
  | cons frame frames => exact h.feed_frame hok

theorem frames_setLevel (b : Builder) (level : Level) :
    (b.setLevel level).frames.length = b.frames.length := by
  rcases b with ⟨root, _ | ⟨frame, outer⟩, expectation, previous, anonymous⟩ <;> rfl

/-- A program ends with no open frame. -/
theorem finish_frames {ending : Option Span} {program : Program}
    (hok : b.finish ending = .ok program) : b.frames = [] := by
  obtain ⟨settled, hsettled, hok⟩ := bind_eq_ok_iff.mp hok
  have hlength : settled.frames.length = b.frames.length := by
    rw [settle] at hsettled
    split at hsettled <;> try cases hsettled
    · rfl
    · rename_i decl name span _
      cases decl <;> cases hsettled <;> exact frames_setLevel _ _
    · obtain ⟨level, -, rfl⟩ := tryLevel_eq_ok hsettled
      exact frames_setLevel b level
  split at hok
  · cases hok
  · cases hok
  · rename_i hframes _
    rw [hframes] at hlength
    exact List.eq_nil_of_length_eq_zero hlength.symm

/-- The end of the program folds the part. -/
theorem Waits.finish (hstands : Stands limit P part other) (h : Waits limit core level frames [])
    (ending : Option Span) :
    Yields P ((core.atop below (level.behind part) frames).finish ending)
      ((core.atop below (level.behind other) frames).finish ending) := by
  intro program hok
  cases frames with
  | cons frame frames => cases finish_frames hok
  | nil =>
    rcases h.expects rfl with hany | ⟨keyword, span, hfunction⟩ | ⟨head, close, hbody⟩
    · exact finish_ends core below (hstands.ends h.edge) hany ending program hok
    · obtain ⟨settled, hsettled, -⟩ := bind_eq_ok_iff.mp hok
      rw [settle, show (core.atop below (level.behind part) []).expectation =
        .function keyword span from hfunction] at hsettled
      cases hsettled
    · obtain ⟨settled, hsettled, -⟩ := bind_eq_ok_iff.mp hok
      rw [settle, show (core.atop below (level.behind part) []).expectation =
        .body head true close from hbody] at hsettled
      cases hsettled

/-- **The tokens behind a part make the same program of any part that can stand in its place.** -/
theorem Waits.run (hstands : Stands limit P part other) {tokens : List Token}
    (h : Waits limit core level frames tokens) (hend : ∀ token ∈ tokens, token.kind ≠ .eof)
    (ending : Option Span) :
    Yields P
      (tokens.foldlM Builder.feed (core.atop below (level.behind part) frames) >>=
        (Builder.finish · ending))
      (tokens.foldlM Builder.feed (core.atop below (level.behind other) frames) >>=
        (Builder.finish · ending)) := by
  induction tokens generalizing core level frames with
  | nil => exact h.finish hstands ending
  | cons token rest ih =>
    intro program hok
    rw [List.foldlM_cons, bind_assoc] at hok
    obtain ⟨b, hfeed, hok⟩ := bind_eq_ok_iff.mp hok
    rw [List.foldlM_cons, bind_assoc]
    rcases h.feed hstands (hend token List.mem_cons_self) hfeed with
      ⟨hp, hother⟩ | ⟨core', level', frames', hwaits, rfl, hother⟩
    · exact ⟨hp, bind_eq_ok_iff.mpr ⟨b, hother, hok⟩⟩
    · obtain ⟨hp, hrest⟩ := ih hwaits (fun token hmem => hend token (List.mem_cons_of_mem _ hmem))
        program hok
      exact ⟨hp, bind_eq_ok_iff.mpr ⟨_, hother, hrest⟩⟩

end

end Builder

end SlotScript
