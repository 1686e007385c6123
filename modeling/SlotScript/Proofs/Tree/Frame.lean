import SlotScript.Proofs.Tree.Act
import SlotScript.Proofs.Tree.Fed

/-!
# Reading in an open frame

While a block, a call, a header or a parameter list is open, a token is read by the innermost frame
alone: what lies below it is neither looked at nor changed until the frame is closed, and then the
level below is given one operand, or one item, or nothing.

**Theorem (`feed_atop`).** What a token does to the frames that are open above a level does not
depend on that level, nor on what lies below it.
-/

namespace SlotScript

/-- What a level is given when the frame above it is closed. -/
inductive Given where
  /-- A finished operand. -/
  | operand (node : Node)
  /-- A part of its statement. -/
  | item (item : Item)
  | nothing

/-- The level with what it is given. -/
def Level.give (level : Level) : Given → Level
  | .operand node => level.operand node
  | .item item => level.item item
  | .nothing => level

/-- Whether what is opened ends in an operand: a call, or a function that is a value. -/
def Opener.isValue : Opener → Bool
  | .call _ | .params _ true | .block (some _) => true
  | _ => false

/-- The node that closing a value leaves. -/
def Node.isValue : Node → Bool
  | .call .. | .define .. => true
  | _ => false

namespace Builder

/-- The builder with other levels. -/
def on (core : Builder) (root : Level) (frames : List Frame) : Builder :=
  { core with root := root, frames := frames }

/-- The builder `core` with its frames above a level that stands in the place of the innermost one
of `below`. -/
def atop (core below : Builder) (level : Level) (frames : List Frame) : Builder :=
  core.on (below.setLevel level).root (frames ++ (below.setLevel level).frames)

/-- What closing a value leads to: an operand, or the body that still has to come. -/
def Ends (core : Builder) (given : Given) : Prop :=
  (∃ node, given = .operand node ∧ node.isValue = true ∧ core.expectation = .any) ∨
    given = .nothing ∧ ∃ head close, core.expectation = .body head true close

/-- A step that looks at the innermost frame alone, whatever lies below. -/
inductive Local (frame : Frame) (step : Level → List Frame → Except BuildError Builder) : Prop
  /-- The frame stays open, perhaps below others. -/
  | stays (core : Builder) (above : List Frame) (level : Level)
      (h : ∀ root outer, step root outer =
        .ok (core.on root (above ++ { frame with level := level } :: outer)))
  /-- The frame is closed. -/
  | leaves (core : Builder) (given : Given)
      (hvalue : frame.opener.isValue = true → core.Ends given)
      (h : ∀ root outer, step root outer = .ok ((core.on root outer).mapLevel (·.give given)))
  | fails (e : BuildError) (h : ∀ root outer, step root outer = .error e)

variable (core : Builder) {frame : Frame}

theorem local_ok (f : Level → Level) :
    Local frame fun root outer => .ok ((core.on root (frame :: outer)).mapLevel f) :=
  .stays core [] (f frame.level) fun _ _ => rfl

/-- The same step with another level in the frame. -/
theorem Local.of_level (level : Level) {step step' : Level → List Frame → Except BuildError Builder}
    (h : Local { frame with level := level } step') (heq : step = step') : Local frame step := by
  subst heq
  cases h with
  | stays core above level h => exact .stays core above level h
  | leaves core given hvalue h => exact .leaves core given hvalue h
  | fails e h => exact .fails e h

/-- Changing the innermost level first. -/
theorem Local.tryLevel {core : Builder} {f : Level → Except BuildError Level}
    {step : Builder → Except BuildError Builder}
    (h : ∀ level, Local { frame with level := level } fun root outer =>
      step (core.on root ({ frame with level := level } :: outer))) :
    Local frame fun root outer => (core.on root (frame :: outer)).tryLevel f >>= step := by
  have hf : ∀ root outer, (core.on root (frame :: outer)).tryLevel f =
      f frame.level >>= fun level => .ok (core.on root ({ frame with level := level } :: outer)) :=
    fun _ _ => rfl
  simp only [hf]
  cases f frame.level with
  | error e => exact .fails e fun _ _ => rfl
  | ok level => exact (h level).of_level level rfl

/-- Changing the innermost level is all. -/
theorem local_tryLevel (f : Level → Except BuildError Level) :
    Local frame fun root outer => (core.on root (frame :: outer)).tryLevel f := by
  have h : Local frame fun root outer => (core.on root (frame :: outer)).tryLevel f >>= pure :=
    Local.tryLevel fun level => .stays core [] level fun _ _ => rfl
  simpa using h

theorem local_openParen (previous : Previous) (span : Span) :
    Local frame fun root outer => .ok ((core.on root (frame :: outer)).openParen previous span) := by
  rcases called_or_grouped previous frame.level.run with ⟨callee, rest, hrun, hcallable⟩ | hgroup
  · exact .stays core [{ opener := .call callee, span := callee.span.merge span }]
      { frame.level with run := rest }
      fun root outer => congrArg Except.ok (openParen_call hrun hcallable)
  · exact .stays core [] { frame.level with groups := span :: frame.level.groups }
      fun root outer => congrArg Except.ok (openParen_group hgroup)

/-- A computation that does not look at the levels comes first. -/
theorem Local.bind {α : Type} {x : Except BuildError α}
    {step : α → Level → List Frame → Except BuildError Builder} (h : ∀ a, Local frame (step a)) :
    Local frame fun root outer => x >>= fun a => step a root outer := by
  cases x with
  | ok a => exact h a
  | error e => exact .fails e fun _ _ => rfl

theorem local_closeParen (span : Span) (hany : core.expectation = .any) :
    Local frame fun root outer => (core.on root (frame :: outer)).closeParen span := by
  have hgroups : ∀ root outer, (core.on root (frame :: outer)).level.groups = frame.level.groups :=
    fun _ _ => rfl
  unfold closeParen
  simp only [hgroups]
  cases frame.level.groups with
  | cons opening groups => exact local_ok core _
  | nil =>
    rcases frame with ⟨opener, place, level⟩
    cases opener with
    | block head => exact .fails _ fun _ _ => rfl
    | call callee =>
      refine Local.bind fun level => Local.bind fun args => ?_
      refine .leaves { core with previous := .closedCall }
        (.operand (.call callee args (place.merge span))) ?_ fun root outer => ?_
      · exact fun _ => Or.inl ⟨_, rfl, rfl, hany⟩
      · cases outer <;> rfl
    | header construct =>
      refine Local.bind fun level => Local.bind fun item => ?_
      refine .leaves { core with previous := .closedHeader } (.item item) ?_ fun root outer => ?_
      · intro hvalue
        cases hvalue
      · cases outer <;> rfl
    | params name anonymous =>
      refine Local.bind fun level => Local.bind fun parts => Local.bind fun params => ?_
      refine .leaves (core.expect (.body ⟨name, params, place⟩ anonymous span)) .nothing ?_
        fun root outer => ?_
      · intro hvalue
        cases anonymous with
        | true => exact Or.inr ⟨rfl, _, _, rfl⟩
        | false => cases hvalue
      · cases outer <;> rfl

theorem local_closeBrace (span : Span) (hany : core.expectation = .any) :
    Local frame fun root outer => (core.on root (frame :: outer)).closeBrace span := by
  have hgroups : ∀ root outer, (core.on root (frame :: outer)).level.groups = frame.level.groups :=
    fun _ _ => rfl
  unfold closeBrace
  simp only [hgroups]
  cases frame.level.groups with
  | cons opening groups => exact .fails _ fun _ _ => rfl
  | nil =>
    rcases frame with ⟨opener, place, level⟩
    cases opener with
    | block head =>
      refine Local.bind fun level => ?_
      cases head with
      | none =>
        refine .leaves (core.expect .otherwise)
          (.item (.node (.block level.lines.reverse (place.merge span)))) ?_ fun root outer => ?_
        · intro hvalue
          cases hvalue
        · cases outer <;> rfl
      | some head =>
        refine .leaves core (.operand (.define head.name none head.params
          (.block level.lines.reverse (place.merge span)) .blank
          (head.span.merge (place.merge span)))) ?_ fun root outer => ?_
        · exact fun _ => Or.inl ⟨_, rfl, rfl, hany⟩
        · cases outer <;> rfl
    | _ => exact .fails _ fun _ _ => rfl

theorem local_start (expectation : Expectation) :
    Local frame fun root outer => (core.on root (frame :: outer)).start expectation :=
  Local.tryLevel fun level => .stays (core.expect expectation) [] level fun _ _ => rfl

theorem local_semicolon (span : Span) :
    Local frame fun root outer => (core.on root (frame :: outer)).semicolon span := by
  have hend : Local frame fun root outer => (core.on root (frame :: outer)).endStatement := by
    have hgroups : ∀ root outer,
        (core.on root (frame :: outer)).level.groups = frame.level.groups := fun _ _ => rfl
    unfold endStatement
    simp only [hgroups]
    cases frame.level.groups with
    | cons opening groups => exact .fails _ fun _ _ => rfl
    | nil => exact local_tryLevel core _
  have hopener : ∀ root outer, (core.on root (frame :: outer)).opener? = some frame.opener :=
    fun _ _ => rfl
  have hgroups : ∀ root outer, (core.on root (frame :: outer)).level.groups = frame.level.groups :=
    fun _ _ => rfl
  unfold semicolon
  simp only [hopener, hgroups]
  cases frame.opener with
  | block head => exact hend
  | header construct =>
    cases frame.level.groups with
    | cons opening groups => exact .fails _ fun _ _ => rfl
    | nil => exact local_tryLevel core _
  | _ => exact .fails _ fun _ _ => rfl

theorem local_comma (span : Span) :
    Local frame fun root outer => (core.on root (frame :: outer)).comma span := by
  have hopener : ∀ root outer, (core.on root (frame :: outer)).opener? = some frame.opener :=
    fun _ _ => rfl
  have hgroups : ∀ root outer, (core.on root (frame :: outer)).level.groups = frame.level.groups :=
    fun _ _ => rfl
  unfold comma
  simp only [hopener, hgroups]
  cases frame.level.groups with
  | cons opening groups => cases frame.opener <;> exact .fails _ fun _ _ => rfl
  | nil =>
    cases frame.opener with
    | call callee => exact local_tryLevel core _
    | params name anonymous => exact local_tryLevel core _
    | _ => exact .fails _ fun _ _ => rfl

theorem local_equals (span : Span) :
    Local frame fun root outer => (core.on root (frame :: outer)).equals span := by
  have hgroups : ∀ root outer, (core.on root (frame :: outer)).level.groups = frame.level.groups :=
    fun _ _ => rfl
  have hrun : ∀ root outer, (core.on root (frame :: outer)).level.run = frame.level.run :=
    fun _ _ => rfl
  unfold equals
  simp only [hgroups, hrun]
  split
  · exact local_ok core _
  · exact .fails _ fun _ _ => rfl
  · exact .fails _ fun _ _ => rfl

theorem local_otherwise (span : Span) :
    Local frame fun root outer => (core.on root (frame :: outer)).otherwise span := by
  refine Local.tryLevel fun level => ?_
  have hitems : ∀ root outer,
      (core.on root ({ frame with level := level } :: outer)).level.items = level.items :=
    fun _ _ => rfl
  simp only [hitems]
  split
  · exact local_ok core _
  · exact .fails _ fun _ _ => rfl

theorem local_handle (previous : Previous) (token : Token) (hany : core.expectation = .any) :
    Local frame fun root outer => (core.on root (frame :: outer)).handle previous token := by
  obtain ⟨act, hact, heq⟩ := exists_act previous token
  simp only [heq]
  cases hact with
  | operand node => exact local_ok core _
  | operator op base => exact local_ok core _
  | openParen => exact local_openParen core previous token.span
  | closeParen => exact local_closeParen core token.span hany
  | closeBrace => exact local_closeBrace core token.span hany
  | comma => exact local_comma core token.span
  | equals => exact local_equals core token.span
  | semicolon => exact local_semicolon core token.span
  | function keyword => exact .stays (core.expect _) [] frame.level fun _ _ => rfl
  | openBrace => exact Local.tryLevel fun level => .stays core [_] level fun _ _ => rfl
  | start expectation => exact local_start core expectation
  | otherwise => exact local_otherwise core token.span
  | nothing => exact .stays core [] frame.level fun _ _ => rfl
  | fails e => exact .fails e fun _ _ => rfl

theorem local_openAt (token : Token) (keyword : String) (opener : Opener) (span : Span) :
    Local frame fun root outer =>
      (core.on root (frame :: outer)).openAt token keyword opener span := by
  unfold openAt
  by_cases h : token.kind = .word "("
  · simp only [if_pos h]
    exact .stays core [{ opener := opener, span := span }] frame.level fun _ _ => rfl
  · simp only [if_neg h]
    exact .fails _ fun _ _ => rfl

theorem local_bodyToken (token : Token) (head : FunctionHead) (anonymous : Bool) :
    Local frame fun root outer =>
      (core.on root (frame :: outer)).bodyToken token head anonymous := by
  unfold bodyToken
  by_cases h : token.kind ≠ .word "\x7b"
  · simp only [if_pos h]
    exact .fails _ fun _ _ => rfl
  · simp only [if_neg h]
    cases anonymous with
    | true => exact .stays core [_] frame.level fun _ _ => rfl
    | false => exact .stays core [_] (frame.level.item (.define head)) fun _ _ => rfl

theorem local_initializerToken (previous : Previous) (token : Token) (decl : DeclKind)
    (name : String) (span : Span) (hany : core.expectation = .any) :
    Local frame fun root outer =>
      (core.on root (frame :: outer)).initializerToken previous token decl name span := by
  unfold initializerToken
  by_cases h : token.kind = .word "="
  · simp only [if_pos h]
    exact local_ok core _
  · simp only [if_neg h]
    cases decl with
    | const => exact .fails _ fun _ _ => rfl
    | plain =>
      exact (local_handle core previous token hany).of_level (frame.level.item (.node
        (.assign name .unresolved .plain none (.null span) span))) rfl
    | var =>
      exact (local_handle core previous token hany).of_level (frame.level.item (.node
        (.assign name .unresolved .var none (.null span) span))) rfl

/-- A token is read by the innermost frame alone. -/
theorem local_feed (token : Token) :
    Local frame fun root outer => (core.on root (frame :: outer)).feed token := by
  rcases core with ⟨root₀, frames₀, expectation, previous, anonymous⟩
  let core : Builder := ⟨root₀, frames₀, .any, .token token.kind, anonymous⟩
  cases expectation with
  | any => exact local_handle core previous token rfl
  | header construct span => exact local_openAt core token _ _ span
  | function keyword span =>
    change Local frame fun root outer =>
      (core.on root (frame :: outer)).functionToken token keyword span
    unfold functionToken
    cases nameOf? token with
    | some name => exact local_start core _
    | none =>
      exact local_openAt { core with anonymous := anonymous + 1 } token keyword
        (.params core.anonymousName true) span
  | params name keyword span => exact local_openAt core token _ _ span
  | body head unnamed close => exact local_bodyToken core token head unnamed
  | target decl span =>
    change Local frame fun root outer => (core.on root (frame :: outer)).targetToken token decl span
    unfold targetToken
    cases nameOf? token with
    | some name => exact .stays (core.expect _) [] frame.level fun _ _ => rfl
    | none => exact .fails _ fun _ _ => rfl
  | initializer decl name span =>
    exact local_initializerToken core previous token decl name span rfl
  | otherwise =>
    change Local frame fun root outer =>
      (core.on root (frame :: outer)).otherwiseToken previous token
    unfold otherwiseToken
    by_cases h : token.kind = .word "else"
    · simp only [if_pos h]
      exact local_handle core previous token rfl
    · simp only [if_neg h]
      exact Local.tryLevel fun level => local_handle core previous token rfl

/-! ## Frames above a level -/

section

variable {core} {frames : List Frame}

/-- The outermost of the frames is a call or a function that is a value. -/
def Valued (frames : List Frame) : Prop := ∀ frame ∈ frames.getLast?, frame.opener.isValue = true

theorem valued_single {frame : Frame} (h : frame.opener.isValue = true) : Valued [frame] := by
  intro last hlast
  obtain rfl : frame = last := by simpa using hlast
  exact h

theorem atop_nil_mapLevel (core below : Builder) (level : Level) (f : Level → Level) :
    (core.atop below level []).mapLevel f = core.atop below (f level) [] := by
  rcases below with ⟨root, _ | ⟨frame, outer⟩, expectation, previous, anonymous⟩ <;> rfl

theorem valued_cons {frames : List Frame} {frame : Frame} (hnil : frames = [])
    (h : frame.opener.isValue = true) : Valued (frame :: frames) := by
  subst hnil
  exact valued_single h

theorem atop_empty (core : Builder) (level : Level) (frames : List Frame) :
    core.atop {} level frames = core.on level frames := by
  simp [atop, setLevel]

theorem level_atop_nil (core below : Builder) (level : Level) :
    (core.atop below level []).level = level := by
  rcases below with ⟨root, _ | ⟨frame, outer⟩, expectation, previous, anonymous⟩ <;> rfl

/-- **A token is read by the frames above a level, whatever the level is.** It fails, or it leaves
frames open, or it closes the only one and gives the level something. -/
theorem feed_atop (core : Builder) (frame : Frame) (frames : List Frame) (token : Token) :
    (∃ e, ∀ below level, (core.atop below level (frame :: frames)).feed token = .error e) ∨
    (∃ (core' : Builder) (frames' : List Frame), frames' ≠ [] ∧ (Valued (frame :: frames) → Valued frames') ∧
      ∀ below level, (core.atop below level (frame :: frames)).feed token =
        .ok (core'.atop below level frames')) ∨
    ∃ (core' : Builder) (given : Given), (Valued (frame :: frames) → core'.Ends given) ∧
      ∀ below level, (core.atop below level (frame :: frames)).feed token =
        .ok (core'.atop below (level.give given) []) := by
  cases local_feed core token with
  | fails e h => exact Or.inl ⟨e, fun below level => h _ _⟩
  | stays core' above level' h =>
    refine Or.inr (Or.inl ⟨core', above ++ { frame with level := level' } :: frames, by simp, ?_,
      fun below level => ?_⟩)
    · intro hvalued
      cases frames with
      | nil => simpa [Valued] using hvalued
      | cons next rest => simpa [Valued] using hvalued
    · refine (h _ _).trans ?_
      simp [atop]
  | leaves core' given hvalue h =>
    cases frames with
    | nil =>
      refine Or.inr (Or.inr ⟨core', given, fun hvalued => hvalue (by simpa [Valued] using hvalued),
        fun below level => ?_⟩)
      exact (h _ _).trans (congrArg Except.ok (atop_nil_mapLevel core' below level (·.give given)))
    | cons next rest =>
      refine Or.inr (Or.inl ⟨core', { next with level := next.level.give given } :: rest, by simp, ?_,
        fun below level => h _ _⟩)
      intro hvalued
      cases rest with
      | nil => simpa [Valued] using hvalued
      | cons last rest => simpa [Valued] using hvalued

end

end Builder

end SlotScript
