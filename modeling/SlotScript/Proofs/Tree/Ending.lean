import SlotScript.Proofs.Tree.Sequence
import SlotScript.Proofs.Tree.Weld

/-!
# The end of a statement

A statement of the program ends at a `;`, behind a block that no `else` follows, and at the end of the
tokens. In each case the expectation is settled first, if it can be (`Builder.Ready`), and then the line is
closed.

**Theorem (`feed_ends`).** A token that ends the statement is read as over the closed line.

**Theorem (`exists_closed`).** If the tokens make one statement and one of them ends it, then nothing comes
behind.
-/

namespace SlotScript

namespace Level

variable {level closed : Level}

theorem closeLine_closed (h : level.closeLine = .ok closed) :
    closed.closeLine = .ok closed := by
  obtain ⟨hrun, hitems⟩ := closeLine_empty h
  rcases closed with ⟨run, items, lines, parts, groups⟩
  obtain rfl : run = [] := hrun
  obtain rfl : items = [] := hitems
  rfl

/-- A line that is not empty is what its items weld to. -/
theorem weld_of_closeLine {node : Node} (h : level.closeLine = .ok closed)
    (hlines : closed.lines = node :: level.lines) :
    ∃ expression, level.closeExpression = .ok expression ∧ Line.weld expression.items = .ok (some node) ∧
      closed = { expression with items := [], lines := node :: level.lines } := by
  obtain ⟨expression, line, hexpression, hline, rfl⟩ := closeLine_eq_ok h
  have hkept : expression.lines = level.lines := closeExpression_lines hexpression
  cases line with
  | none => simp [hkept] at hlines
  | some first =>
    obtain rfl : first = node := by simpa [hkept] using hlines
    exact ⟨expression, hexpression, hline, by simp [hkept]⟩

/-- A line that is closed where something has been read is not empty. -/
theorem exists_line (h : level.closeLine = .ok closed) (hlevel : level.run ≠ [] ∨ level.items ≠ []) :
    ∃ node, closed.lines = node :: level.lines := by
  obtain ⟨expression, line, hexpression, hline, rfl⟩ := closeLine_eq_ok h
  cases line with
  | none =>
    have hitems : expression.items = [] := (Line.weldFrom_eq_none hline).2.2
    rcases closeExpression_eq_ok hexpression with ⟨hrun, rfl⟩ | ⟨node, -, rfl⟩
    · rcases hlevel with hlevel | hlevel
      · exact absurd hrun hlevel
      · exact absurd hitems hlevel
    · cases hitems
  | some node => exact ⟨node, congrArg (node :: ·) (closeExpression_lines hexpression)⟩

end Level

namespace Builder

variable {b b' r : Builder}

/-- The token ends the statement of the outermost level. -/
def EndsStatement (b : Builder) (token : Token) : Prop :=
  b.frames = [] ∧ (token.kind = .separator ∨ b.expectation = .otherwise ∧ token.kind ≠ .word "else")

/-- The builder where its statement ends: nothing more has to come, and a declaration without a value is
complete. -/
inductive Ready (b : Builder) : Builder → Prop
  | any : b.expectation = .any → Ready b { b with expectation := .any }
  | otherwise : b.expectation = .otherwise → Ready b { b with expectation := .any }
  | declared {decl : DeclKind} {name : String} {span : Span} :
    b.expectation = .initializer decl name span → decl ≠ .const →
    Ready b ({ b with expectation := .any }.mapLevel
      (·.item (.node (.assign name .unresolved decl none (.null span) span))))

theorem declareBare_of_ne {decl : DeclKind} (h : decl ≠ .const) (name : String) (span : Span) :
    b.declareBare decl name span =
      .ok (b.mapLevel (·.item (.node (.assign name .unresolved decl none (.null span) span)))) := by
  cases decl with
  | const => exact absurd rfl h
  | _ => rfl

theorem Ready.anonymous (h : Ready b r) : r.anonymous = b.anonymous := by
  cases h with
  | any | otherwise => rfl
  | declared => exact anonymous_mapLevel _ _

theorem Ready.frames (h : Ready b r) (hb : b.frames = []) : r.frames = [] := by
  cases h with
  | any | otherwise => exact hb
  | declared => exact (frames_setLevel_eq_nil _ _).mpr hb


theorem finish_any {ending : Option Span} {program : Program} (hany : b.expectation = .any) :
    b.finish ending = .ok program ↔ b.frames = [] ∧ b.root.groups = [] ∧
      ∃ closed, b.root.closeLine = .ok closed ∧ program = { body := closed.lines.reverse } := by
  rcases b with ⟨⟨run, items, lines, parts, groups⟩, frames, expectation, previous, anonymous⟩
  obtain rfl : expectation = .any := hany
  cases frames with
  | cons => simp [finish, settle, bind, Except.bind]
  | nil =>
    cases groups with
    | cons => simp [finish, settle, bind, Except.bind]
    | nil =>
      have hfinish : finish ⟨⟨run, items, lines, parts, []⟩, [], .any, previous, anonymous⟩ ending =
          Level.closeLine ⟨run, items, lines, parts, []⟩ >>= fun root =>
            .ok { body := root.lines.reverse } := rfl
      rw [hfinish, bind_eq_ok_iff]
      simp [eq_comm]

/-- A program can end where its statement can, if nothing is open. -/
theorem finish_eq_ok {ending : Option Span} {program : Program} : b.finish ending = .ok program ↔
    ∃ r closed, Ready b r ∧ b.frames = [] ∧ r.root.groups = [] ∧ r.root.closeLine = .ok closed ∧
      program = { body := closed.lines.reverse } := by
  have hsettled : ∀ {s}, b.settle ending = .ok s →
      b.finish ending = { s with expectation := .any }.finish ending := by
    intro s hs
    rw [finish, hs]
    rfl
  rcases b with ⟨root, frames, expectation, previous, anonymous⟩
  constructor
  · intro h
    cases expectation with
    | any =>
      obtain ⟨hframes, hgroups, closed, hclosed, hprogram⟩ := (finish_any rfl).mp h
      exact ⟨_, closed, .any rfl, hframes, hgroups, hclosed, hprogram⟩
    | initializer decl name span =>
      by_cases hdecl : decl = .const
      · subst hdecl
        cases h
      · rw [hsettled (declareBare_of_ne hdecl name span), finish_any rfl] at h
        obtain ⟨hframes, hgroups, closed, hclosed, hprogram⟩ := h
        have hframes : frames = [] := (frames_setLevel_eq_nil _ _).mp hframes
        subst hframes
        exact ⟨_, closed, .declared rfl hdecl, rfl, hgroups, hclosed, hprogram⟩
    | otherwise =>
      obtain ⟨settled, hok, -⟩ := bind_eq_ok_iff.mp h
      obtain ⟨level, hlevel, rfl⟩ := tryLevel_eq_ok hok
      rw [hsettled hok, finish_any rfl] at h
      obtain ⟨hframes, hgroups, closed, hclosed, hprogram⟩ := h
      have hframes : frames = [] := (frames_setLevel_eq_nil _ _).mp hframes
      subst hframes
      have hclosed : level.closeLine = .ok closed := hclosed
      rw [Level.closeLine_closed hlevel] at hclosed
      obtain rfl := Except.ok.inj hclosed
      refine ⟨_, level, .otherwise rfl, rfl, ?_, hlevel, hprogram⟩
      exact (Level.closeLine_groups hlevel).symm.trans hgroups
    | _ => cases h
  · rintro ⟨r, closed, hready, hframes, hgroups, hclosed, hprogram⟩
    obtain rfl : frames = [] := hframes
    cases hready with
    | any hexpectation =>
      obtain rfl : expectation = .any := hexpectation
      exact (finish_any rfl).mpr ⟨rfl, hgroups, closed, hclosed, hprogram⟩
    | otherwise hexpectation =>
      obtain rfl : expectation = .otherwise := hexpectation
      have hok : settle ⟨root, [], .otherwise, previous, anonymous⟩ ending =
          .ok ⟨closed, [], .otherwise, previous, anonymous⟩ :=
        bind_eq_ok_iff.mpr ⟨closed, hclosed, rfl⟩
      rw [hsettled hok, finish_any rfl]
      exact ⟨rfl, (Level.closeLine_groups hclosed).trans hgroups, closed,
        Level.closeLine_closed hclosed, hprogram⟩
    | @declared decl name span hexpectation hdecl =>
      obtain rfl : expectation = .initializer decl name span := hexpectation
      rw [hsettled (declareBare_of_ne hdecl name span), finish_any rfl]
      exact ⟨rfl, hgroups, closed, hclosed, hprogram⟩

/-- A `;` closes the line, if no group is open. -/
theorem handle_separator {root : Level} {previous : Previous} {anonymous : Nat} {span : Span} :
    handle ⟨root, [], .any, .token .separator, anonymous⟩ previous ⟨.separator, span⟩ = .ok b' ↔
      root.groups = [] ∧ ∃ closed, root.closeLine = .ok closed ∧
        ⟨closed, [], .any, .token .separator, anonymous⟩ = b' := by
  rcases root with ⟨run, items, lines, parts, _ | ⟨opening, groups⟩⟩
  · have hclose : handle ⟨⟨run, items, lines, parts, []⟩, [], .any, .token .separator, anonymous⟩ previous
        ⟨.separator, span⟩ = Level.closeLine ⟨run, items, lines, parts, []⟩ >>= fun closed =>
          .ok ⟨closed, [], .any, .token .separator, anonymous⟩ := rfl
    rw [hclose, bind_eq_ok_iff]
    simp
  · constructor
    · intro h
      cases h
    · rintro ⟨hgroups, -⟩
      cases hgroups

/-- A line that a `;` closes may be closed before. -/
theorem handle_separator_closed {root : Level} {previous : Previous} {anonymous : Nat} {span : Span} :
    handle ⟨root, [], .any, .token .separator, anonymous⟩ previous ⟨.separator, span⟩ = .ok b' ↔
      ∃ closed, root.closeLine = .ok closed ∧
        handle ⟨closed, [], .any, .token .separator, anonymous⟩ previous ⟨.separator, span⟩ = .ok b' := by
  rw [handle_separator]
  constructor
  · rintro ⟨hgroups, closed, hclosed, rfl⟩
    refine ⟨closed, hclosed, handle_separator.mpr ⟨?_, closed, Level.closeLine_closed hclosed, rfl⟩⟩
    exact (Level.closeLine_groups hclosed).trans hgroups
  · rintro ⟨closed, hclosed, h⟩
    obtain ⟨hgroups, closed', hclosed', rfl⟩ := handle_separator.mp h
    rw [Level.closeLine_closed hclosed] at hclosed'
    obtain rfl := Except.ok.inj hclosed'
    exact ⟨(Level.closeLine_groups hclosed).symm.trans hgroups, closed, hclosed, rfl⟩

/-- A token that ends the statement closes its line, and is read then. -/
theorem feed_ends {token : Token} (hends : b.EndsStatement token) : b.feed token = .ok b' ↔
    ∃ r closed, Ready b r ∧ r.root.closeLine = .ok closed ∧
      feed { r with root := closed } token = .ok b' := by
  rcases b with ⟨root, frames, expectation, previous, anonymous⟩
  rcases token with ⟨kind, span⟩
  obtain ⟨hframes, htoken⟩ := hends
  obtain rfl : frames = [] := hframes
  constructor
  · intro h
    cases expectation with
    | any =>
      obtain rfl : kind = .separator := by simpa using htoken
      have h : handle ⟨root, [], .any, .token .separator, anonymous⟩ previous ⟨.separator, span⟩ =
        .ok b' := h
      obtain ⟨closed, hclosed, h⟩ := handle_separator_closed.mp h
      exact ⟨_, closed, .any rfl, hclosed, h⟩
    | initializer decl name place =>
      obtain rfl : kind = .separator := by simpa using htoken
      by_cases hdecl : decl = .const
      · subst hdecl
        cases h
      · obtain ⟨declared, hdeclared, h⟩ := bind_eq_ok_iff.mp h
        rw [declareBare_of_ne hdecl] at hdeclared
        obtain rfl := Except.ok.inj hdeclared
        obtain ⟨closed, hclosed, h⟩ := handle_separator_closed.mp h
        exact ⟨_, closed, .declared rfl hdecl, hclosed, h⟩
    | otherwise =>
      have hne : kind ≠ .word "else" := by
        rintro rfl
        simp at htoken
      have h : otherwiseToken _ previous ⟨kind, span⟩ = .ok b' := h
      rw [otherwiseToken, if_neg hne] at h
      obtain ⟨middle, hmiddle, h⟩ := bind_eq_ok_iff.mp h
      obtain ⟨closed, hclosed, rfl⟩ := tryLevel_eq_ok hmiddle
      exact ⟨_, closed, .otherwise rfl, hclosed, h⟩
    | _ =>
      obtain rfl : kind = .separator := by simpa using htoken
      cases h
  · rintro ⟨r, closed, hready, hclosed, h⟩
    cases hready with
    | any hexpectation =>
      obtain rfl : expectation = .any := hexpectation
      obtain rfl : kind = .separator := by simpa using htoken
      have h : handle ⟨closed, [], .any, .token .separator, anonymous⟩ previous ⟨.separator, span⟩ =
        .ok b' := h
      exact handle_separator_closed.mpr ⟨closed, hclosed, h⟩
    | otherwise hexpectation =>
      obtain rfl : expectation = .otherwise := hexpectation
      have hne : kind ≠ .word "else" := by
        rintro rfl
        simp at htoken
      change otherwiseToken _ previous ⟨kind, span⟩ = .ok b'
      rw [otherwiseToken, if_neg hne]
      exact bind_eq_ok_iff.mpr ⟨_, bind_eq_ok_iff.mpr ⟨closed, hclosed, rfl⟩, h⟩
    | @declared decl name place hexpectation hdecl =>
      obtain rfl : expectation = .initializer decl name place := hexpectation
      obtain rfl : kind = .separator := by simpa using htoken
      change initializerToken _ previous ⟨.separator, span⟩ decl name place = .ok b'
      rw [initializerToken, if_neg (by simp)]
      exact bind_eq_ok_iff.mpr ⟨_, declareBare_of_ne hdecl name place,
        handle_separator_closed.mpr ⟨closed, hclosed, h⟩⟩

/-! ## What comes behind -/

theorem readBy_cons (b : Builder) (token : Token) (rest : List Token) (ending : Option Span) :
    b.readBy .counted (token :: rest) ending = b.feed token >>= (·.readBy .counted rest ending) := by
  simp only [readBy, feedBy_counted, List.foldlM_cons, bind_assoc]

/-- After a token that ends the statement, what is read is read over the closed line alone. -/
theorem readBy_ends {token : Token} (hends : b.EndsStatement token) {rest : List Token}
    {ending : Option Span} {program : Program} :
    b.readBy .counted (token :: rest) ending = .ok program ↔ ∃ r closed, Ready b r ∧
      r.root.closeLine = .ok closed ∧
      readBy .counted { r with root := closed } (token :: rest) ending = .ok program := by
  simp only [readBy_cons, bind_eq_ok_iff]
  constructor
  · rintro ⟨middle, hfeed, hread⟩
    obtain ⟨r, closed, hready, hclosed, hfeed⟩ := (feed_ends hends).mp hfeed
    exact ⟨r, closed, hready, hclosed, middle, hfeed, hread⟩
  · rintro ⟨r, closed, hready, hclosed, middle, hfeed, hread⟩
    exact ⟨middle, (feed_ends hends).mpr ⟨r, closed, hready, hclosed, hfeed⟩, hread⟩

/-- Of a closed line its statements stay, and nothing else. -/
theorem readBy_closed {level closed : Level} (hclosed : level.closeLine = .ok closed)
    (tokens : List Token) (ending : Option Span) :
    readBy .counted { r with root := closed } tokens ending =
      (readBy .counted { r with root := { groups := closed.groups } } tokens ending).map closed.before := by
  obtain ⟨hrun, hitems⟩ := Level.closeLine_empty hclosed
  rw [← readBy_hosted, hosted_empty]
  rcases closed with ⟨run, items, lines, parts, groups⟩
  obtain rfl : run = [] := hrun
  obtain rfl : items = [] := hitems
  rfl

/-- Where a `\x7d` has been read, an operand or a block is there. -/
theorem closeBrace_read {span : Span} (h : b.closeBrace span = .ok b') :
    b'.level.run ≠ [] ∧ b'.expectation = b.expectation ∨
      ∃ body place items, b'.level.items = .node (.block body place) :: items := by
  cases closesBrace h with
  | block outer hframes hgroups body place =>
    refine .inr ⟨body, place, level { b with frames := outer } |>.items, ?_⟩
    exact congrArg Level.items (level_setLevel { b with frames := outer } _)
  | function outer =>
    refine .inl ⟨?_, expectation_mapLevel { b with frames := outer } _⟩
    rw [mapLevel, level_setLevel]
    exact List.cons_ne_nil _ _

/-- A token is handled, or it meets an expectation and neither closes a block nor ends with one. -/
theorem handle_of_feed {token : Token} (h : b.feed token = .ok b') :
    (∃ middle previous, middle.expectation = .any ∧ handle middle previous token = .ok b') ∨
      b'.expectation ≠ .otherwise ∧ token.kind ≠ .word "\x7d" := by
  have hname : ∀ {name}, nameOf? token = some name → token.kind ≠ .word "\x7d" := by
    intro name hname hkind
    rw [nameOf?, hkind] at hname
    cases hname
  cases fed h with
  | handled _ h => exact .inl ⟨_, _, rfl, h⟩
  | header _ hkind => exact .inr ⟨by simp [push, past], by simp [hkind]⟩
  | name _ hsome => exact .inr ⟨by simp, hname hsome⟩
  | unnamed _ _ hkind => exact .inr ⟨by simp [push, past], by simp [hkind]⟩
  | params _ hkind => exact .inr ⟨by simp [push, past], by simp [hkind]⟩
  | value _ hkind => exact .inr ⟨by simp [push, past], by simp [hkind]⟩
  | body _ hkind => exact .inr ⟨by simp [push, past], by simp [hkind]⟩
  | target _ hsome => exact .inr ⟨by simp, hname hsome⟩
  | assigned _ hkind => exact .inr ⟨by simp [past], by simp [hkind]⟩
  | declared _ _ hdeclared h =>
    obtain ⟨-, rfl⟩ := declareBare_eq_ok hdeclared
    exact .inl ⟨_, _, expectation_mapLevel _ _, h⟩
  | branch _ _ h => exact .inl ⟨_, _, rfl, h⟩
  | ended _ _ _ h => exact .inl ⟨_, _, expectation_setLevel _ _, h⟩

/-- An `else` is waited for behind a block. -/
theorem block_of_feed {token : Token} (h : b.feed token = .ok b') (hotherwise : b'.expectation = .otherwise) :
    ∃ body place items, b'.level.items = .node (.block body place) :: items := by
  rcases handle_of_feed h with ⟨middle, previous, hany, h⟩ | ⟨hne, -⟩
  swap
  · exact absurd hotherwise hne
  obtain ⟨act, hact, heq⟩ := exists_act previous token
  rw [heq] at h
  have hmiddle : middle.expectation ≠ .otherwise := by
    simp [hany]
  -- No other token makes the builder wait for an `else`.
  suffices hcalm : token.kind ≠ .word "\x7d" → Calm (· ≠ .otherwise) act by
    by_cases hkind : token.kind = .word "\x7d"
    · have h : middle.closeBrace token.span = .ok b' := by
        rw [← h, ← heq, handle, hkind]
        rfl
      rcases closeBrace_read h with ⟨-, hsame⟩ | hblock
      · exact absurd (hsame.symm.trans hotherwise) hmiddle
      · exact hblock
    · exact absurd hotherwise (hcalm hkind _ _ hmiddle h)
  intro hkind
  cases hact with
  | operand node => exact calm_mapLevel _
  | operator op base => exact calm_mapLevel _
  | openParen => exact calm_openParen previous token.span
  | closeParen => exact calm_closeParen (fun _ _ _ => by simp) token.span
  | closeBrace hbrace => exact absurd hbrace hkind
  | comma => exact calm_comma token.span
  | equals => exact calm_equals token.span
  | semicolon => exact calm_semicolon token.span
  | function keyword => exact calm_ok fun _ => .inr (by simp [expect])
  | openBrace => exact (calm_tryLevel _).bind (calm_ok fun _ => .inl rfl)
  | start expectation _ _ hotherwise => exact calm_start hotherwise
  | otherwise => exact calm_otherwise token.span
  | nothing => exact calm_ok fun _ => .inl rfl
  | fails e => exact calm_error e

theorem Ready.expectation (h : Ready b r) : r.expectation = .any := by
  cases h with
  | any | otherwise => rfl
  | declared => exact expectation_mapLevel _ _

/-- A `;` between statements stands in no group. -/
theorem groups_of_separator {level : Level} {span : Span} (hr : r.frames = []) (hany : r.expectation = .any)
    (h : feed { r with root := level } ⟨.separator, span⟩ = .ok b') : level.groups = [] := by
  rcases r with ⟨root, frames, expectation, previous, anonymous⟩
  obtain rfl : frames = [] := hr
  obtain rfl : expectation = .any := hany
  have h : handle ⟨level, [], .any, .token .separator, anonymous⟩ previous ⟨.separator, span⟩ = .ok b' := h
  exact (handle_separator.mp h).1

/-- What has been read of a statement is there when it ends. -/
theorem Ready.read (h : Ready b r) (hb : b.frames = []) (hread : b.root.run ≠ [] ∨ b.root.items ≠ []) :
    r.root.run ≠ [] ∨ r.root.items ≠ [] := by
  cases h with
  | any | otherwise => exact hread
  | declared =>
    rcases b with ⟨root, frames, expectation, previous, anonymous⟩
    obtain rfl : frames = [] := hb
    exact .inr (List.cons_ne_nil _ _)

/-- A program whose last token is a `\x7d` is not empty. -/
theorem body_ne_nil_of_brace {span : Span} (h : b.feed ⟨.word "\x7d", span⟩ = .ok b') (ending : Option Span) :
    b'.finish ending ≠ .ok { body := [] } := by
  intro hfinish
  rcases handle_of_feed h with ⟨middle, previous, -, h⟩ | ⟨-, hne⟩
  swap
  · exact hne rfl
  have h : middle.closeBrace span = .ok b' := h
  obtain ⟨r, closed, hready, hframes, -, hclosed, hbody⟩ := finish_eq_ok.mp hfinish
  have hread : b'.root.run ≠ [] ∨ b'.root.items ≠ [] := by
    rw [← level_of_frames hframes]
    rcases closeBrace_read h with ⟨hrun, -⟩ | ⟨body, place, items, hitems⟩
    · exact .inl hrun
    · exact .inr (by simp [hitems])
  obtain ⟨node, hlines⟩ := Level.exists_line hclosed (hready.read hframes hread)
  simp [hlines] at hbody

variable {node : Node} {tokens : List Token} {ending : Option Span}

/-- Of one statement nothing comes behind its end, unless it begins behind the end of an empty one. -/
theorem exists_closed {token : Token} (hends : b.EndsStatement token)
    (hblock : b.expectation = .otherwise → b.root.items ≠ [])
    (hseparator : token.kind = .separator → b.finish none ≠ .ok { body := [] })
    (h : b.readBy .counted (token :: tokens) ending = .ok { body := [node] }) :
    ∃ r closed, Ready b r ∧ r.root.closeLine = .ok closed ∧ closed.lines = [node] ∧
      readBy .counted { r with root := { groups := closed.groups } } (token :: tokens) ending =
        .ok { body := [] } := by
  obtain ⟨r, closed, hready, hclosed, hread⟩ := (readBy_ends hends).mp h
  rw [readBy_closed hclosed] at hread
  obtain ⟨⟨body, shape⟩, hprogram, hbefore⟩ := map_eq_ok_iff.mp hread
  obtain ⟨hbody, hshape⟩ := Program.mk.inj hbefore
  obtain rfl : shape = .blank := hshape
  have hne : closed.lines ≠ [] := by
    intro hnil
    rcases hends.2 with hkind | ⟨hotherwise, -⟩
    · obtain ⟨kind, span⟩ := token
      obtain rfl : kind = .separator := hkind
      obtain ⟨middle, hfeed, -⟩ := bind_eq_ok_iff.mp ((readBy_cons _ _ _ _).symm.trans hprogram)
      have hgroups := groups_of_separator (hready.frames hends.1) hready.expectation hfeed
      refine hseparator rfl (finish_eq_ok.mpr ⟨r, closed, hready, hends.1, ?_, hclosed, ?_⟩)
      · exact (Level.closeLine_groups hclosed).symm.trans hgroups
      · simp [hnil]
    · have hread := hready.read hends.1 (.inr (hblock hotherwise))
      obtain ⟨first, hfirst⟩ := Level.exists_line hclosed hread
      simp [hnil] at hfirst
  rcases hlist : closed.lines with _ | ⟨first, more⟩
  · exact absurd hlist hne
  obtain ⟨rfl, rfl, rfl⟩ : first = node ∧ more = [] ∧ body = [] := by
    have hlength := congrArg List.length hbody
    simp only [hlist, List.reverse_cons, List.length_append, List.length_singleton] at hlength
    obtain rfl : more = [] := List.length_eq_zero_iff.mp (by simp at hlength; omega)
    simpa [hlist] using hbody
  exact ⟨r, closed, hready, hclosed, hlist, hprogram⟩

end Builder

end SlotScript
