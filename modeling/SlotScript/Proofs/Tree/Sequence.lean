import SlotScript.Proofs.Tree.Group
import SlotScript.Proofs.Tree.Unnamed

/-!
# Statements one after the other

When a statement has ended nothing of it stays behind but its line: what comes next is read as at the
start of a program. The same holds of what comes behind a `\x7b`.

**Theorem (`ofTokens_sequence`).** If tokens make a program, then with a `;` and further tokens behind
they make its statements followed by those of the further tokens, or fail as the further tokens fail;
and in braces they make one block of its statements.

The argument compares two builders: one that reads tokens from the start, and one that reads them over
finished statements, or in a block. The second is the first with the finished lines below its own
(`Builder.hosted`), a token keeps it so (`lifts_feed`), and so do all tokens (`lifts_foldlM`). The token
before, which is a `;` or a `\x7b` and not none, makes no difference, and the number of functions
without a name makes the difference of their names alone.
-/

namespace SlotScript

/-- The level with the lines and parts of another below its own. -/
def Level.onto (level base : Level) : Level :=
  { level with
    lines := level.lines ++ base.lines
    parts := level.parts ++ base.parts }

namespace Level

/-- The program with the statements of finished lines before its own. -/
def before (base : Level) (program : Program) : Program :=
  { program with body := base.lines.reverse ++ program.body }

variable (level base : Level)

theorem closeExpression_onto :
    (level.onto base).closeExpression = level.closeExpression.map (·.onto base) := by
  rcases level with ⟨_ | ⟨item, run⟩, items, lines, parts, groups⟩
  · rfl
  · change Run.assemble (item :: run).reverse >>= _ = (Run.assemble (item :: run).reverse >>= _).map _
    cases Run.assemble (item :: run).reverse <;> rfl

theorem closeLine_onto : (level.onto base).closeLine = level.closeLine.map (·.onto base) := by
  rw [closeLine, closeExpression_onto, closeLine]
  cases level.closeExpression with
  | error e => rfl
  | ok closed =>
    change Line.weld closed.items >>= _ = (Line.weld closed.items >>= _).map _
    cases Line.weld closed.items with
    | error e => rfl
    | ok line => simp [onto, Except.map, pure, Except.pure]

end Level

namespace Builder

/-- The builder with its levels over those of another: its own first level stands on a finished level,
in the place of the innermost one there. -/
def hosted (b below : Builder) (base : Level) : Builder :=
  b.atop below (b.root.onto base) b.frames

/-- What comes of a step over other levels: what comes of the step, over these. It fails as the step
fails if no other frame is open. -/
def Lifts (below : Builder) (base : Level) (x y : Except BuildError Builder) : Prop :=
  match x with
  | .ok b => y = .ok (b.hosted below base)
  | .error e => below.frames = [] → y = .error e

/-- The builder is at the start of a program, or in a block. -/
def Hosts (below : Builder) : Prop :=
  below.opener? = none ∨ ∃ head, below.opener? = some (.block head)

variable {b b' below : Builder} {base : Level}

theorem Lifts.bind {x y : Except BuildError Builder} {k : Builder → Except BuildError Builder}
    (h : Lifts below base x y)
    (hk : ∀ b, x = .ok b → Lifts below base (k b) (k (b.hosted below base))) :
    Lifts below base (x >>= k) (y >>= k) := by
  cases x with
  | ok b =>
    obtain rfl : y = .ok (b.hosted below base) := h
    exact hk b rfl
  | error e =>
    intro hframes
    rw [h hframes]
    rfl

theorem lifts_error (e : BuildError) : Lifts below base (.error e) (.error e) := fun _ => rfl

theorem level_of_frames (hb : b.frames = []) : b.level = b.root := by
  rw [level, hb]

theorem level_hosted (hb : b.frames = []) : (b.hosted below base).level = b.root.onto base := by
  rw [hosted, hb, level_atop_nil]

theorem setLevel_hosted (hb : b.frames = []) (level : Level) :
    (b.hosted below base).setLevel (level.onto base) = (b.setLevel level).hosted below base := by
  rcases b with ⟨root, _ | ⟨frame, outer⟩, expectation, previous, anonymous⟩
  · rcases below with ⟨root', _ | ⟨frame, outer⟩, expectation', previous', anonymous'⟩ <;> rfl
  · cases hb

theorem mapLevel_hosted (hb : b.frames = []) {f : Level → Level}
    (hf : ∀ level, f (level.onto base) = (f level).onto base) :
    (b.hosted below base).mapLevel f = (b.mapLevel f).hosted below base := by
  rw [mapLevel, level_hosted hb, hf, setLevel_hosted hb, mapLevel, level_of_frames hb]

theorem lifts_tryLevel (hb : b.frames = []) {f : Level → Except BuildError Level}
    (hf : ∀ level, f (level.onto base) = (f level).map (·.onto base)) :
    Lifts below base (b.tryLevel f) ((b.hosted below base).tryLevel f) := by
  rw [tryLevel, tryLevel, level_hosted hb, hf, level_of_frames hb]
  cases f b.root with
  | error e => exact lifts_error e
  | ok level => exact congrArg Except.ok (setLevel_hosted hb level)

theorem frames_setLevel_eq_nil (b : Builder) (level : Level) :
    (b.setLevel level).frames = [] ↔ b.frames = [] := by
  rw [← List.length_eq_zero_iff, frames_setLevel, List.length_eq_zero_iff]

theorem frames_tryLevel {f : Level → Except BuildError Level} (h : b.tryLevel f = .ok b') :
    b'.frames = [] ↔ b.frames = [] := by
  obtain ⟨level, -, rfl⟩ := tryLevel_eq_ok h
  exact frames_setLevel_eq_nil b level

/-- Over a level where nothing else is open, no frame is open. -/
theorem opener?_hosted (hb : b.frames = []) : (b.hosted below base).opener? = below.opener? := by
  rcases b with ⟨root, _ | ⟨frame, outer⟩, expectation, previous, anonymous⟩
  · rcases below with ⟨root', _ | ⟨frame, outer⟩, expectation', previous', anonymous'⟩ <;> rfl
  · cases hb

theorem frames_hosted (hb : b.frames = []) (hbelow : below.frames = []) :
    (b.hosted below base).frames = [] := by
  rw [hosted, atop, setLevel, hb, hbelow]
  rfl

theorem lifts_openParen (hb : b.frames = []) (previous : Previous) (span : Span) :
    Lifts below base (.ok (b.openParen previous span))
      (.ok ((b.hosted below base).openParen previous span)) := by
  refine congrArg Except.ok ?_
  unfold openParen
  rw [level_hosted hb, level_of_frames hb]
  simp only [Level.onto]
  split
  · rename_i callee rest _ _
    have hrun : ((b.hosted below base).mapLevel fun level => { level with run := rest }) =
        (b.mapLevel fun level => { level with run := rest }).hosted below base :=
      mapLevel_hosted hb fun _ => rfl
    exact congrArg (·.push (.call callee) (callee.span.merge span)) hrun
  · exact mapLevel_hosted hb fun _ => rfl

theorem lifts_closeParen (hb : b.frames = []) (span : Span) :
    Lifts below base (b.closeParen span) ((b.hosted below base).closeParen span) := by
  have hgroups : (b.hosted below base).level.groups = b.root.groups := by
    rw [level_hosted hb]
    rfl
  unfold closeParen
  rw [hgroups, level_of_frames hb, hb]
  cases b.root.groups with
  | cons opening groups => exact congrArg Except.ok (mapLevel_hosted hb fun _ => rfl)
  | nil =>
    intro hbelow
    rw [frames_hosted hb hbelow]

theorem lifts_closeBrace (hb : b.frames = []) (span : Span) :
    Lifts below base (b.closeBrace span) ((b.hosted below base).closeBrace span) := by
  have hgroups : (b.hosted below base).level.groups = b.root.groups := by
    rw [level_hosted hb]
    rfl
  unfold closeBrace
  rw [hgroups, level_of_frames hb, hb]
  cases b.root.groups with
  | cons opening groups => exact lifts_error _
  | nil =>
    intro hbelow
    rw [frames_hosted hb hbelow]

theorem lifts_semicolon (hhosts : Hosts below) (hb : b.frames = []) (span : Span) :
    Lifts below base (b.semicolon span) ((b.hosted below base).semicolon span) := by
  have hopener : b.opener? = none := by rw [opener?, hb]; rfl
  have hend : Lifts below base b.endStatement (b.hosted below base).endStatement := by
    unfold endStatement
    rw [level_hosted hb, level_of_frames hb]
    simp only [Level.onto]
    cases b.root.groups with
    | cons opening groups => exact lifts_error _
    | nil => exact lifts_tryLevel hb fun level => level.closeLine_onto base
  unfold semicolon
  rw [opener?_hosted hb, hopener]
  rcases hhosts with hnone | ⟨head, hblock⟩
  · rw [hnone]
    exact hend
  · rw [hblock]
    exact hend

theorem lifts_comma (hb : b.frames = []) (span : Span) :
    Lifts below base (b.comma span) ((b.hosted below base).comma span) := by
  have hopener : b.opener? = none := by rw [opener?, hb]; rfl
  unfold comma
  rw [opener?_hosted hb, hopener]
  intro hbelow
  rw [show below.opener? = none by rw [opener?, hbelow]; rfl]

theorem lifts_equals (hb : b.frames = []) (span : Span) :
    Lifts below base (b.equals span) ((b.hosted below base).equals span) := by
  unfold equals
  rw [level_hosted hb, level_of_frames hb]
  simp only [Level.onto]
  split
  · exact congrArg Except.ok (mapLevel_hosted hb fun _ => rfl)
  · exact lifts_error _
  · exact lifts_error _

theorem lifts_otherwise (hb : b.frames = []) (span : Span) :
    Lifts below base (b.otherwise span) ((b.hosted below base).otherwise span) := by
  refine (lifts_tryLevel hb fun level => level.closeExpression_onto base).bind fun closed hclosed => ?_
  have hframes := (frames_tryLevel hclosed).mpr hb
  rw [level_hosted hframes, level_of_frames hframes]
  simp only [Level.onto]
  split
  · exact congrArg Except.ok (mapLevel_hosted hframes fun _ => rfl)
  · exact lifts_error _

theorem lifts_start (hb : b.frames = []) (expectation : Expectation) :
    Lifts below base (b.start expectation) ((b.hosted below base).start expectation) :=
  (lifts_tryLevel hb fun level => level.closeExpression_onto base).bind fun _ _ => rfl

theorem lifts_handle {token : Token} (hhosts : token.kind = .separator → Hosts below) (hb : b.frames = [])
    (previous : Previous) :
    Lifts below base (b.handle previous token) ((b.hosted below base).handle previous token) := by
  obtain ⟨act, hact, heq⟩ := exists_act previous token
  rw [heq, heq]
  cases hact with
  | operand node => exact congrArg Except.ok (mapLevel_hosted hb fun _ => rfl)
  | operator op base => exact congrArg Except.ok (mapLevel_hosted hb fun _ => rfl)
  | openParen => exact lifts_openParen hb previous token.span
  | closeParen => exact lifts_closeParen hb token.span
  | closeBrace => exact lifts_closeBrace hb token.span
  | comma => exact lifts_comma hb token.span
  | equals => exact lifts_equals hb token.span
  | semicolon h => exact lifts_semicolon (hhosts h) hb token.span
  | function keyword => rfl
  | openBrace =>
    exact (lifts_tryLevel hb fun level => level.closeExpression_onto base).bind fun _ _ => rfl
  | start expectation => exact lifts_start hb expectation
  | otherwise => exact lifts_otherwise hb token.span
  | nothing => rfl
  | fails e => exact lifts_error e

theorem lifts_openAt (token : Token) (keyword : String) (opener : Opener) (span : Span) :
    Lifts below base (b.openAt token keyword opener span)
      ((b.hosted below base).openAt token keyword opener span) := by
  unfold openAt
  split
  · rfl
  · exact lifts_error _

theorem lifts_bodyToken (hb : b.frames = []) (token : Token) (head : FunctionHead) (anonymous : Bool) :
    Lifts below base (b.bodyToken token head anonymous)
      ((b.hosted below base).bodyToken token head anonymous) := by
  unfold bodyToken
  split
  · exact lifts_error _
  · split
    · rfl
    · exact congrArg (fun b : Builder => Except.ok (b.push _ _)) (mapLevel_hosted hb fun _ => rfl)

theorem lifts_declareBare (hb : b.frames = []) (decl : DeclKind) (name : String) (span : Span) :
    Lifts below base (b.declareBare decl name span)
      ((b.hosted below base).declareBare decl name span) := by
  cases decl with
  | const => exact lifts_error _
  | _ => exact congrArg Except.ok (mapLevel_hosted hb fun _ => rfl)

theorem frames_declareBare {decl : DeclKind} {name : String} {span : Span}
    (h : b.declareBare decl name span = .ok b') : b'.frames = [] ↔ b.frames = [] := by
  obtain ⟨-, rfl⟩ := declareBare_eq_ok h
  exact frames_setLevel_eq_nil b _

theorem lifts_initializerToken {token : Token} (hhosts : token.kind = .separator → Hosts below)
    (hb : b.frames = []) (previous : Previous) (decl : DeclKind) (name : String) (span : Span) :
    Lifts below base (b.initializerToken previous token decl name span)
      ((b.hosted below base).initializerToken previous token decl name span) := by
  unfold initializerToken
  split
  · exact congrArg Except.ok (mapLevel_hosted hb fun _ => rfl)
  · exact (lifts_declareBare hb decl name span).bind fun declared hdeclared =>
      lifts_handle hhosts ((frames_declareBare hdeclared).mpr hb) previous

theorem lifts_otherwiseToken {token : Token} (hhosts : token.kind = .separator → Hosts below)
    (hb : b.frames = []) (previous : Previous) :
    Lifts below base (b.otherwiseToken previous token)
      ((b.hosted below base).otherwiseToken previous token) := by
  unfold otherwiseToken
  split
  · exact lifts_handle hhosts hb previous
  · exact (lifts_tryLevel hb fun level => level.closeLine_onto base).bind fun closed hclosed =>
      lifts_handle hhosts ((frames_tryLevel hclosed).mpr hb) previous

/-- Reading a token over finished lines is reading it from the start. Only a `;` asks what is open
below. -/
theorem lifts_feed {b : Builder} {token : Token}
    (hhosts : b.frames = [] → token.kind = .separator → Hosts below) :
    Lifts below base (b.feed token) ((b.hosted below base).feed token) := by
  rcases b with ⟨root, _ | ⟨frame, outer⟩, expectation, previous, anonymous⟩
  · let b : Builder := ⟨root, [], .any, .token token.kind, anonymous⟩
    have hb : b.frames = [] := rfl
    have hseparator := hhosts rfl
    cases expectation with
    | any => exact lifts_handle hseparator hb previous
    | header construct span => exact lifts_openAt (b := b) token _ _ span
    | function keyword span =>
      change Lifts below base (b.functionToken token keyword span)
        ((b.hosted below base).functionToken token keyword span)
      unfold functionToken
      cases nameOf? token with
      | some name => exact lifts_start hb _
      | none => exact lifts_openAt (b := { b with anonymous := anonymous + 1 }) token keyword _ span
    | params name keyword span => exact lifts_openAt (b := b) token _ _ span
    | body head unnamed close => exact lifts_bodyToken hb token head unnamed
    | target decl span =>
      change Lifts below base (b.targetToken token decl span)
        ((b.hosted below base).targetToken token decl span)
      unfold targetToken
      cases nameOf? token with
      | some name => rfl
      | none => exact lifts_error _
    | initializer decl name span => exact lifts_initializerToken hseparator hb previous decl name span
    | otherwise => exact lifts_otherwiseToken hseparator hb previous
  · let b : Builder := ⟨root, frame :: outer, expectation, previous, anonymous⟩
    have hstart : b = b.atop {} root (frame :: outer) := (atop_empty b root (frame :: outer)).symm
    have hgive : ∀ given, (root.onto base).give given = (root.give given).onto base := by
      intro given
      cases given <;> rfl
    -- An open frame reads the token, whatever lies below it.
    change Lifts below base (b.feed token) ((b.atop below (root.onto base) (frame :: outer)).feed token)
    rw [hstart]
    rcases feed_atop b frame outer token with ⟨e, h⟩ | ⟨core, frames, -, -, h⟩ | ⟨core, given, -, h⟩
    · rw [h, ← hstart, h]
      exact lifts_error e
    · rw [h, ← hstart, h, atop_empty]
      rfl
    · rw [h, ← hstart, h, atop_empty, hgive]
      rfl

/-- Reading tokens over finished lines is reading them from the start. -/
theorem lifts_foldlM (hhosts : Hosts below) (b : Builder) (tokens : List Token) :
    Lifts below base (tokens.foldlM feed b) (tokens.foldlM feed (b.hosted below base)) := by
  induction tokens generalizing b with
  | nil => rfl
  | cons token rest ih =>
    rw [List.foldlM_cons, List.foldlM_cons]
    exact (lifts_feed fun _ _ => hhosts).bind fun b _ => ih b

/-! ## The end of the statements before -/

theorem hosted_empty (b : Builder) (base : Level) :
    b.hosted {} base = { b with root := b.root.onto base } := atop_empty b _ _

theorem hosted_self (b : Builder) : b.hosted {} {} = b := by
  simp [hosted_empty, Level.onto]

theorem lifts_settle (hb : b.frames = []) (ending : Option Span) :
    Lifts below base (b.settle ending) ((b.hosted below base).settle ending) := by
  rcases b with ⟨root, frames, expectation, previous, anonymous⟩
  cases expectation with
  | any => rfl
  | initializer decl name span => exact lifts_declareBare hb decl name span
  | otherwise => exact lifts_tryLevel hb fun level => level.closeLine_onto base
  | _ => exact lifts_error _

theorem frames_settle {ending : Option Span} (h : b.settle ending = .ok b') :
    b'.frames = [] ↔ b.frames = [] := by
  rcases settle_eq_ok h with ⟨-, rfl⟩ | ⟨decl, name, span, -, h⟩ | ⟨-, h⟩
  · rfl
  · exact frames_declareBare h
  · exact frames_tryLevel h

theorem finish_hosted (base : Level) (b : Builder) (ending : Option Span) :
    (b.hosted {} base).finish ending = (b.finish ending).map base.before := by
  cases hb : b.frames with
  | nil =>
    have hsettle : Lifts {} base (b.settle ending) ((b.hosted {} base).settle ending) :=
      lifts_settle hb ending
    rw [finish, finish]
    cases hok : b.settle ending with
    | error e =>
      rw [hok] at hsettle
      rw [hsettle rfl]
      rfl
    | ok settled =>
      rw [hok] at hsettle
      have hsettle : (b.hosted {} base).settle ending = .ok (settled.hosted {} base) := hsettle
      have hframes := (frames_settle hok).mpr hb
      rcases settled with ⟨root, frames, expectation, previous, anonymous⟩
      obtain rfl : frames = [] := hframes
      rw [hsettle, hosted_empty]
      rcases root with ⟨run, items, lines, parts, _ | ⟨opening, groups⟩⟩
      · let root : Level := ⟨run, items, lines, parts, []⟩
        change (root.onto base).closeLine >>= _ = (root.closeLine >>= _).map _
        rw [Level.closeLine_onto]
        cases root.closeLine with
        | error e => rfl
        | ok closed =>
          simp [Except.map, bind, Except.bind, pure, Except.pure, Level.onto, Level.before]
      · rfl
  | cons frame outer =>
    -- An open frame is an error, whatever the lines are.
    rcases b with ⟨root, frames, expectation, previous, anonymous⟩
    obtain rfl : frames = frame :: outer := hb
    rw [hosted_empty]
    cases expectation with
    | initializer decl name span => cases decl <;> rfl
    | otherwise =>
      change (frame.level.closeLine >>= _) >>= _ = ((frame.level.closeLine >>= _) >>= _).map _
      cases frame.level.closeLine <;> rfl
    | _ => rfl

theorem readBy_hosted (base : Level) (b : Builder) (tokens : List Token) (ending : Option Span) :
    (b.hosted {} base).readBy .counted tokens ending =
      (b.readBy .counted tokens ending).map base.before := by
  have hread : Lifts {} base (tokens.foldlM feed b) (tokens.foldlM feed (b.hosted {} base)) :=
    lifts_foldlM (Or.inl rfl) b tokens
  rw [readBy, readBy, feedBy_counted]
  cases hok : tokens.foldlM feed b with
  | error e =>
    rw [hok] at hread
    rw [hread rfl]
    rfl
  | ok b' =>
    rw [hok] at hread
    have hread : tokens.foldlM feed (b.hosted {} base) = .ok (b'.hosted {} base) := hread
    rw [hread]
    exact finish_hosted base b' ending

/-- With a higher number of functions without a name, the same is read up to their names. -/
theorem readBy_numbered (n : Nat) (tokens : List Token) (ending : Option Span) :
    readBy .counted { anonymous := n } tokens ending =
      (readBy .counted {} tokens ending).map (Program.change (.shifted n)) := by
  have hstart : ({ anonymous := n } : Builder) = renumbered n {} := by
    simp [renumbered, raised, numbered, Builder.change, Change.shifted, Motion.change,
      Change.bare, Level.change, Expectation.change]
  rw [readBy, readBy, feedBy_counted, hstart, foldlM_feed_renumbered]
  cases tokens.foldlM feed {} with
  | error e => rfl
  | ok b => exact finish_renumbered n b ending

/-- What is read from the start is read behind any token that ends no operand, up to the names of functions
without one. -/
theorem readBy_fresh {p : Previous} (hends : p.endsOperand = false) (hcallable : p.isCallable = false) (n : Nat)
    (tokens : List Token) (ending : Option Span) :
    readBy .counted { previous := p, anonymous := n } tokens ending =
      (readBy .counted {} tokens ending).map (Program.change (.shifted n)) := by
  rw [← readBy_numbered]
  exact readBy_previous (b := { anonymous := n }) (q := .start) hends hcallable rfl .counted tokens ending

/-- What a token finds where a program could end: the expectation is settled, and the statement can
be closed. -/
structure Closes (b : Builder) (first : Program) (token : Token) (settled : Builder) (root : Level) :
    Prop where
  frames : settled.frames = []
  groups : settled.root.groups = []
  parts : settled.root.parts = b.root.parts
  expectation : settled.expectation = .any
  previous : settled.previous = .token token.kind
  anonymous : settled.anonymous = b.anonymous
  closeLine : settled.root.closeLine = .ok root
  body : first = { body := root.lines.reverse }
  feed : ∀ below base, (b.hosted below base).feed token =
    (settled.hosted below base).handle b.previous token

theorem parts_settle {settled : Builder} {ending : Option Span} (hb : b.frames = [])
    (h : b.settle ending = .ok settled) : settled.root.parts = b.root.parts := by
  rcases b with ⟨root, frames, expectation, previous, anonymous⟩
  obtain rfl : frames = [] := hb
  rcases settle_eq_ok h with ⟨-, rfl⟩ | ⟨decl, name, span, -, h⟩ | ⟨-, h⟩
  · rfl
  · obtain ⟨-, rfl⟩ := declareBare_eq_ok h
    rfl
  · obtain ⟨level, hlevel, rfl⟩ := tryLevel_eq_ok h
    exact Level.closeLine_parts hlevel

/-- Where a program can end, a token that goes on with no statement finds it so. -/
theorem exists_closes {first : Program} (h : b.finish none = .ok first) (token : Token)
    (hequals : token.kind ≠ .word "=") (helse : token.kind ≠ .word "else") :
    ∃ settled root, Closes b first token settled root := by
  obtain ⟨settled, hsettle, h⟩ := bind_eq_ok_iff.mp h
  rcases settled with ⟨root, _ | ⟨frame, outer⟩, expectation', previous', anonymous'⟩
  swap
  · cases h
  rcases hgroups : root.groups with _ | ⟨opening, groups⟩
  swap
  · simp [hgroups] at h
  simp only [hgroups] at h
  obtain ⟨closed, hclosed, h⟩ := bind_eq_ok_iff.mp h
  have hbody := pure_eq_ok_iff.mp h
  have hframes : b.frames = [] := (frames_settle hsettle).mp rfl
  have hparts : root.parts = b.root.parts := parts_settle hframes hsettle
  refine ⟨⟨root, [], .any, .token token.kind, b.anonymous⟩, closed, rfl, hgroups, hparts, rfl, rfl, rfl,
    hclosed, hbody.symm, fun below base => ?_⟩
  rcases b with ⟨root₀, frames₀, expectation, previous, anonymous⟩
  obtain rfl : frames₀ = [] := hframes
  let b : Builder := ⟨root₀, [], .any, .token token.kind, anonymous⟩
  cases expectation with
  | any =>
    cases hsettle
    rfl
  | initializer decl name span =>
    change (b.hosted below base).initializerToken previous token decl name span = _
    rw [initializerToken, if_neg hequals]
    have hdeclared : Lifts below base (b.declareBare decl name span)
      ((b.hosted below base).declareBare decl name span) := lifts_declareBare rfl decl name span
    cases decl with
    | const => cases hsettle
    | _ =>
      cases hsettle
      exact congrArg (· >>= fun b => b.handle previous token) hdeclared
  | otherwise =>
    change (b.hosted below base).otherwiseToken previous token = _
    rw [otherwiseToken, if_neg helse]
    have hline : Lifts below base (b.tryLevel Level.closeLine)
        ((b.hosted below base).tryLevel Level.closeLine) :=
      lifts_tryLevel rfl fun level => level.closeLine_onto base
    obtain ⟨level, hlevel, heq⟩ := tryLevel_eq_ok hsettle
    cases heq
    have hlevel : b.level.closeLine = .ok root := hlevel
    rw [tryLevel, hlevel] at hline
    exact congrArg (· >>= fun b => b.handle previous token) hline
  | _ => cases hsettle

theorem hosted_closed {root : Level} (hrun : root.run = []) (hitems : root.items = [])
    (hgroups : root.groups = []) (hb : b.root = {}) : b.hosted {} root = { b with root := root } := by
  rcases root with ⟨run, items, lines, parts, groups⟩
  simp only at hrun hitems hgroups
  rw [hosted_empty, hb, hrun, hitems, hgroups]
  rfl

/-- After a `;` nothing is left of the statements before but their lines. -/
theorem Closes.separator {first : Program} {place : Span} {settled : Builder} {root : Level}
    (h : Closes b first ⟨.separator, place⟩ settled root) :
    b.feed ⟨.separator, place⟩ = .ok
      (hosted { previous := .token .separator, anonymous := b.anonymous } {} root) := by
  have hgroups : root.groups = [] := (Level.closeLine_groups h.closeLine).trans h.groups
  obtain ⟨hrun, hitems⟩ := Level.closeLine_empty h.closeLine
  have hfeed := h.feed {} {}
  rw [hosted_self, hosted_self] at hfeed
  rcases settled with ⟨root', frames, expectation, previous, anonymous⟩
  obtain rfl : frames = [] := h.frames
  obtain rfl : expectation = .any := h.expectation
  obtain rfl : previous = .token .separator := h.previous
  obtain rfl : anonymous = b.anonymous := h.anonymous
  have hline : root'.closeLine = .ok root := h.closeLine
  have hopen : root'.groups = [] := h.groups
  rw [hfeed, hosted_closed hrun hitems hgroups rfl]
  change endStatement _ = _
  rw [endStatement, level, hopen]
  change root'.closeLine >>= _ = _
  rw [hline]
  rfl

/-- After the `\x7d` of a block that stands alone the program can end. -/
theorem Closes.block {first : Program} {opening closing : Span} {settled : Builder} {root : Level}
    (h : Closes b first ⟨.word "\x7d", closing⟩ settled root) :
    ((b.hosted { frames := [{ opener := .block none, span := opening }] } {}).feed
      ⟨.word "\x7d", closing⟩ >>= (·.finish none)) =
      .ok { body := [.block first.body (opening.merge closing)] } := by
  rcases settled with ⟨root', frames, expectation, previous, anonymous⟩
  obtain rfl : frames = [] := h.frames
  obtain rfl : expectation = .any := h.expectation
  have hline : root'.closeLine = .ok root := h.closeLine
  have hopen : root'.groups = [] := h.groups
  have hclosed : (root'.onto {}).closeLine = .ok (root.onto {}) := by
    rw [Level.closeLine_onto, hline]
    rfl
  have hlines : (root.onto {}).lines.reverse = first.body := by
    rw [h.body, Level.onto]
    exact congrArg List.reverse (List.append_nil root.lines)
  let block : Node := .block first.body (opening.merge closing)
  have hbrace : (hosted ⟨root', [], .any, previous, anonymous⟩
      { frames := [{ opener := .block none, span := opening }] } {}).closeBrace closing =
      .ok ⟨{ items := [.node block] }, [], .otherwise, previous, anonymous⟩ := by
    rcases root' with ⟨run, items, lines, parts, groups⟩
    obtain rfl : groups = [] := hopen
    change Level.closeLine _ >>= _ = _
    rw [hclosed, ok_bind, hlines]
    rfl
  rw [h.feed]
  change (closeBrace _ closing >>= _) = _
  rw [hbrace]
  rfl

/-- What is read after a `;`. -/
theorem Closes.readBy_separator {first : Program} {place : Span} {settled : Builder} {root : Level}
    (h : Closes b first ⟨.separator, place⟩ settled root) (tokens : List Token)
    (ending : Option Span) :
    b.readBy .counted (⟨.separator, place⟩ :: tokens) ending =
      (readBy .counted {} tokens ending).map fun second =>
        { second with body := first.body ++ (second.change (.shifted b.anonymous)).body } := by
  have hread : b.readBy .counted (⟨.separator, place⟩ :: tokens) ending =
      (hosted { previous := .token .separator, anonymous := b.anonymous } {} root).readBy .counted
        tokens ending := by
    rw [readBy, readBy, feedBy_counted, List.foldlM_cons, h.separator, ok_bind]
  rw [hread, readBy_hosted, readBy_fresh rfl rfl, h.body]
  cases readBy .counted {} tokens ending <;> rfl

end Builder

/-- A program is read from the start. -/
theorem Program.ofTokens_eq_readBy (tokens : List Token) :
    Program.ofTokens tokens = Builder.readBy .counted {} (tokens.takeWhile (·.kind ≠ .eof))
      ((tokens.find? (·.kind = .eof)).map (·.span)) :=
  @Program.ofTokens_append [] tokens (by simp)

/-- What tokens without an end token make is what is read of them. -/
theorem Program.ofTokens_live {tokens : List Token} (hlive : ∀ token ∈ tokens, token.kind ≠ .eof) :
    Program.ofTokens tokens = Builder.readBy .counted {} tokens none := by
  have h : Program.ofTokens (tokens ++ []) = _ := Program.ofTokens_append hlive
  rw [List.append_nil] at h
  rw [h, Builder.readBy, Builder.feedBy_counted]
  rfl

/-- **Statements are read one after the other.** If tokens make a program, then with a `;` and further
tokens behind them they make its statements followed by those of the further tokens, whose functions
without a name are numbered on, or they fail as the further tokens do. In braces they make one block
of its statements. -/
theorem Program.ofTokens_sequence {tokens : List Token} {first : Program}
    (hlive : ∀ token ∈ tokens, token.kind ≠ .eof) (h : Program.ofTokens tokens = .ok first) :
    (∀ (separator : Span) (rest : List Token),
      Program.ofTokens (tokens ++ ⟨.separator, separator⟩ :: rest) =
        (Program.ofTokens rest).map fun second =>
          { second with
            body := first.body ++ (second.change (.shifted (Builder.unnamedIn tokens))).body }) ∧
    ∀ opening closing : Span,
      Program.ofTokens (⟨.word "\x7b", opening⟩ :: tokens ++ [⟨.word "\x7d", closing⟩]) =
        .ok { body := [.block first.body (opening.merge closing)] } := by
  have hread : Builder.readBy .counted {} tokens none = .ok first := (Program.ofTokens_live hlive).symm.trans h
  constructor
  · intro separator rest
    obtain ⟨b, hb, hfinish⟩ := bind_eq_ok_iff.mp hread
    rw [Builder.feedBy_counted] at hb
    obtain ⟨settled, root, hcloses⟩ := Builder.exists_closes hfinish ⟨.separator, separator⟩
      (by simp) (by simp)
    have hcount : b.anonymous = Builder.unnamedIn tokens :=
      (Builder.anonymous_foldlM hb).trans (Nat.zero_add _)
    rw [Program.ofTokens_append hlive, hb, ok_bind, Program.ofTokens_eq_readBy, ← hcount,
      ← hcloses.readBy_separator]
    simp
  · intro opening closing
    -- After the brace, as at the start, no operand stands before.
    have hbrace := Builder.readBy_previous (b := {}) (p := .token (.word "\x7b")) (q := .start)
      (by decide) (by decide) rfl .counted tokens none
    obtain ⟨b, hb, hfinish⟩ := bind_eq_ok_iff.mp (hbrace.trans hread)
    rw [Builder.feedBy_counted] at hb
    obtain ⟨settled, root, hcloses⟩ := Builder.exists_closes hfinish ⟨.word "\x7d", closing⟩
      (by simp) (by simp)
    let below : Builder := { frames := [{ opener := .block none, span := opening }] }
    have hopened : Builder.feed {} ⟨.word "\x7b", opening⟩ =
        .ok (Builder.hosted { previous := .token (.word "\x7b") } below {}) := rfl
    have hinside : Builder.Lifts below {} (tokens.foldlM Builder.feed _) _ :=
      Builder.lifts_foldlM (Or.inr ⟨none, rfl⟩) { previous := .token (.word "\x7b") } tokens
    rw [hb] at hinside
    have hinside : tokens.foldlM Builder.feed
      (Builder.hosted { previous := .token (.word "\x7b") } below {}) = .ok (b.hosted below {}) := hinside
    have hall : ∀ token ∈ ⟨.word "\x7b", opening⟩ :: tokens ++ [⟨.word "\x7d", closing⟩],
        token.kind ≠ .eof := by
      simpa [or_imp, forall_and] using hlive
    rw [← hcloses.block, ← List.append_nil (_ ++ _), Program.ofTokens_append hall, List.cons_append,
      List.foldlM_cons, hopened, ok_bind, List.foldlM_append, hinside, ok_bind, List.foldlM_cons]
    simp only [List.foldlM_nil, bind_pure]
    rfl

/-- `f = def(x) \x7b x \x7d`, which defines a function without a name: the next one, in
`g = def() \x7b 1 \x7d`, is `anon#1`. -/
theorem Program.ofTokens_sequence_closures :
    let tokens : List Token := [.word "f", .word "=", .word "def", .word "(", .word "x", .word ")",
      .word "\x7b", .word "x", .word "\x7d"].map (⟨·, .nowhere⟩)
    let rest : List Token := [.word "g", .word "=", .word "def", .word "(", .word ")", .word "\x7b",
      .int 1, .word "\x7d"].map (⟨·, .nowhere⟩)
    let second : Program := { body := [.assign "g" .unresolved .plain none
      (.define "anon#0" none [] (.block [.int 1 .nowhere] .nowhere) .blank .nowhere) .nowhere] }
    (∀ token ∈ tokens, token.kind ≠ .eof) ∧ Program.ofTokens rest = .ok second ∧
    ∃ first, Program.ofTokens tokens = .ok first ∧
      Program.ofTokens (tokens ++ ⟨.separator, .nowhere⟩ :: rest) = .ok
        { body := first.body ++ [.assign "g" .unresolved .plain none
          (.define "anon#1" none [] (.block [.int 1 .nowhere] .nowhere) .blank .nowhere) .nowhere] } ∧
      Program.ofTokens (⟨.word "\x7b", .nowhere⟩ :: tokens ++ [⟨.word "\x7d", .nowhere⟩]) =
        .ok { body := [.block first.body .nowhere] } := by
  intro tokens rest second
  have hlive : ∀ token ∈ tokens, token.kind ≠ .eof := by decide
  have hok : (Program.ofTokens tokens).isOk = true := by decide +kernel
  have hsecond : Program.ofTokens rest = .ok second := by cbv
  obtain ⟨first, hfirst⟩ := exists_ok_of_isOk hok
  obtain ⟨hsequence, hblock⟩ := Program.ofTokens_sequence hlive hfirst
  refine ⟨hlive, hsecond, first, hfirst, ?_, hblock .nowhere .nowhere⟩
  have hcount : Builder.unnamedIn tokens = 1 := by decide +kernel
  have hname : renumbered 1 "anon#0" = "anon#1" := renumbered_counted 1 0
  rw [hsequence, hsecond, hcount]
  simp [Except.map, second, Program.change, Node.change, Change.shifted, Motion.change,
    Motion.still, hname]

end SlotScript
