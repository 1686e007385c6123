import Mathlib
import SlotScript.Proofs.Tree.Behind
import SlotScript.Proofs.Tree.Inside
import SlotScript.Proofs.Tree.Shape

/-!
# A group is a unit

The builder has no frame for a group: a `(` raises the precedence of the operators behind it, and the
run of the whole expression is folded at once. So it has to be shown that what stands in a group is
folded by itself.

**Theorem (`ofTokens_group`).** A group that holds an expression makes the same tree in the program as
it makes on its own, and the rest of the program is read as if a literal stood in its place.

The exception is real: a declaration in a group does not heed the group, and takes in what stands
behind it (`declaration_leaves_group`).

The two sides are tied in three steps. In the group, the builder does what it does on the group's
tokens alone, on top of what was there before (`Group.Neat.inside`). When the group is left, what it
has put on the run folds to one tree, whatever comes behind (`Group.Neat.folds`). And a literal in its
place leads to the same builder, up to the literal (`Builder.readBy_plug`).
-/

namespace SlotScript

/-! ## Groups -/

/-- A group among tokens: a pair of parentheses that match, the first of which groups, with the
builders that read them. -/
structure Group where
  /-- The tokens before it. -/
  before : List Token
  /-- Where its `(` stands. -/
  opening : Span
  /-- The tokens in it. -/
  inner : List Token
  /-- Where its `)` stands. -/
  closing : Span
  /-- The tokens behind it. -/
  after : List Token
  /-- The builder that reads the `(`. -/
  outer : Builder
  /-- The builder that reads the first token in the group. -/
  start : Builder
  /-- The builder that reads the `)`. -/
  last : Builder
  before_read : before.foldlM Builder.feed {} = .ok outer
  opening_read : outer.feed ⟨.word "(", opening⟩ = .ok start
  inner_read : inner.foldlM Builder.feed start = .ok last
  /-- The `(` groups: it calls nothing and starts no header and no parameters. -/
  groups : start.level.groups.length = outer.level.groups.length + 1
  matched : Builder.balanced 0 inner = true
  /-- The tokens do not end before. -/
  live : ∀ token ∈ before ++ inner, token.kind ≠ .eof

namespace Group

/-- All the tokens. -/
def tokens (g : Group) : List Token :=
  g.before ++ ⟨.word "(", g.opening⟩ :: g.inner ++ ⟨.word ")", g.closing⟩ :: g.after

/-- The tokens with a literal in the place of the group. -/
def replaced (g : Group) (text : String) (place : Span) : List Token :=
  g.before ++ ⟨.literal text, place⟩ :: g.after

/-- The group holds an expression, and no operator of another group reaches for its ends. -/
structure Neat (g : Group) : Prop where
  /-- No statement starts directly in it, and each group counts. -/
  plain : Builder.along (Builder.isPlain g.start) g.start g.inner = true
  /-- It does not start with an operator that wants a left operand. -/
  first : Builder.begins g.inner = true
  /-- It ends in an operand. -/
  last : g.last.level.run.head?.map RunItem.isOperator = some false
  /-- An operator right before it stands in no other group. -/
  ahead : ∀ op p span, g.start.level.run.head? = some (.operator op p span) →
    p < g.start.level.groups.length * groupWeight
  /-- An operator right behind it stands in no other group. -/
  behind : loose g.outer.level.groups.length g.outer.level.groups.length g.after = true

end Group

/-! ## Reading on from a builder -/

namespace Builder

/-- The program that the builder makes of further tokens. -/
def readBy (numbering : Numbering) (b : Builder) (tokens : List Token) (ending : Option Span) :
    Except BuildError Program :=
  tokens.foldlM (feedBy numbering) b >>= (·.finish ending)

theorem readBy_change (c : Change) (b : Builder) (tokens : List Token) (ending : Option Span)
    (h : ∀ token ∈ tokens, c.Keeps token.kind) :
    c.Follows (Program.change c) (b.readBy .counted tokens ending)
      ((b.change c).readBy c.numbering (tokens.map (Token.change c)) (ending.map c.span)) := by
  rw [readBy, feedBy_counted]
  exact (b.foldlM_feed_change c tokens h).bind fun b => b.finish_change c ending

/-- All that the builder asks of the token before is whether an operand ends with it and whether it
can be called. -/
theorem handle_previous {p q : Previous} (hends : p.endsOperand = q.endsOperand)
    (hcallable : p.isCallable = q.isCallable) (b : Builder) (token : Token) :
    b.handle p token = b.handle q token := by
  unfold handle
  cases token.kind with
  | word text =>
    simp only [word]
    cases Role.ofWord text <;> simp only [openParen, hends, hcallable]
  | _ => rfl

theorem feedBy_previous {p q : Previous} (hends : p.endsOperand = q.endsOperand)
    (hcallable : p.isCallable = q.isCallable) {b : Builder} (hany : b.expectation = .any)
    (numbering : Numbering) (token : Token) :
    feedBy numbering { b with previous := p } token =
      feedBy numbering { b with previous := q } token := by
  rcases b with ⟨root, frames, expectation, previous, anonymous⟩
  obtain rfl : expectation = .any := hany
  exact handle_previous hends hcallable _ token

theorem readBy_previous {p q : Previous} (hends : p.endsOperand = q.endsOperand)
    (hcallable : p.isCallable = q.isCallable) {b : Builder} (hany : b.expectation = .any)
    (numbering : Numbering) (tokens : List Token) (ending : Option Span) :
    readBy numbering { b with previous := p } tokens ending =
      readBy numbering { b with previous := q } tokens ending := by
  cases tokens with
  | nil =>
    rcases b with ⟨root, frames, expectation, previous, anonymous⟩
    obtain rfl : expectation = .any := hany
    rfl
  | cons token rest =>
    rw [readBy, readBy, List.foldlM_cons, List.foldlM_cons,
      feedBy_previous hends hcallable hany numbering token]

theorem atop_change (c : Change) (core below : Builder) (level : Level) (frames : List Frame) :
    (core.atop below level frames).change c =
      (core.change c).atop (below.change c) (level.change c) (frames.map (Frame.change c)) := by
  rcases below with ⟨root, _ | ⟨frame, outer⟩, expectation, previous, anonymous⟩ <;>
    simp [atop, setLevel, on, change, Frame.change]

/-- What is built without a literal is the same with a tree in its place. -/
theorem change_plug {tokens : List Token} {b : Builder} {text : String} {tree : Node}
    (h : tokens.foldlM feed {} = .ok b) (hfresh : ∀ token ∈ tokens, token.kind ≠ .literal text) :
    b.change (.plug text tree) = b.change .shape := by
  have hplug := foldlM_feed_change (.plug text tree) {} tokens fun token htoken =>
    Change.keeps_plug (hfresh token htoken)
  have hshape := foldlM_feed_change .shape {} tokens fun token _ => Change.keeps_shape token.kind
  rw [h] at hplug hshape
  exact Except.ok.inj (Eq.trans (Eq.symm hplug) hshape)

/-- The builder `core` with one operand in the place of the group that `start` has opened. -/
def holding (core start : Builder) (groups : List Span) (node : Node) : Builder :=
  core.atop start
    { start.level with
      run := .operand node :: start.level.run
      groups := groups } []

/-- The builder with a literal in the place of the group that it has opened. -/
def inPlace (start : Builder) (groups : List Span) (text : String) (place : Span) : Builder :=
  holding { start with previous := .token (.literal text) } start groups (.str text place)

/-- What can be said of a `(` that opens a group: where it is read, `read` reads a literal. -/
structure Opened (opening : Span) (depth : Nat) (start : Builder)
    (read : String → Span → Except BuildError Builder) (groups : List Span) : Prop where
  expectation : start.expectation = .any
  previous : start.previous = .token (.word "(")
  level : start.level.groups = opening :: groups
  length : groups.length = depth
  literal : ∀ text place, read text place = .ok (start.inPlace groups text place)

theorem opened_handle {b start : Builder} {previous : Previous} {opening : Span}
    (hany : b.expectation = .any) (hprevious : b.previous = .token (.word "("))
    (hok : b.handle previous ⟨.word "(", opening⟩ = .ok start)
    (hgroup : start.level.groups.length = b.level.groups.length + 1) :
    Opened opening b.level.groups.length start
      (fun text place => handle { b with previous := .token (.literal text) } previous
        ⟨.literal text, place⟩) b.level.groups := by
  have hok : Except.ok (b.openParen previous opening) = .ok start := hok
  obtain rfl : b.mapLevel (fun level => { level with groups := opening :: level.groups }) = start := by
    rw [← Except.ok.inj hok, openParen]
    split
    · rename_i callee run hrun hcallable
      rw [← Except.ok.inj hok, openParen_call hrun hcallable] at hgroup
      cases hgroup
    · rfl
  rcases b with ⟨root, _ | ⟨frame, outer⟩, expectation, before, anonymous⟩
  · exact ⟨hany, hprevious, rfl, rfl, fun _ _ => rfl⟩
  · exact ⟨hany, hprevious, rfl, rfl, fun _ _ => rfl⟩

theorem setLevel_previous (b : Builder) (level : Level) (previous : Previous) :
    setLevel { b with previous := previous } level =
      { b.setLevel level with previous := previous } := by
  rcases b with ⟨root, _ | ⟨frame, outer⟩, expectation, before, anonymous⟩ <;> rfl

/-- A `(` that opens a group, and the literal that could stand in its place. -/
theorem opened_feed {outer start : Builder} {opening : Span}
    (hok : outer.feed ⟨.word "(", opening⟩ = .ok start)
    (hgroup : start.level.groups.length = outer.level.groups.length + 1) :
    ∃ groups, Opened opening outer.level.groups.length start
      (fun text place => outer.feed ⟨.literal text, place⟩) groups := by
  rcases outer with ⟨root, frames, expectation, previous, anonymous⟩
  let b : Builder := ⟨root, frames, .any, .token (.word "("), anonymous⟩
  have hpush : ∀ opener span, b.push opener span ≠ start := by
    rintro opener span rfl
    cases hgroup
  -- Once the expectation is met, which keeps the groups, the token is read as any other.
  have hmeet : ∀ b' : Builder, b'.expectation = .any → b'.previous = .token (.word "(") →
      b'.level.groups = b.level.groups → b'.handle previous ⟨.word "(", opening⟩ = .ok start →
      (∀ text place, feed ⟨root, frames, expectation, previous, anonymous⟩ ⟨.literal text, place⟩ =
        handle { b' with previous := .token (.literal text) } previous ⟨.literal text, place⟩) →
      ∃ groups, Opened opening b.level.groups.length start (fun text place =>
        feed ⟨root, frames, expectation, previous, anonymous⟩ ⟨.literal text, place⟩) groups := by
    intro b' hany hprevious hgroups hok hliteral
    have hopened := opened_handle hany hprevious hok (by rw [hgroups]; exact hgroup)
    rw [hgroups] at hopened
    exact ⟨_, hopened.expectation, hopened.previous, hopened.level, hopened.length,
      fun text place => (hliteral text place).trans (hopened.literal text place)⟩
  cases expectation with
  | any => exact hmeet b rfl rfl rfl hok fun text place => rfl
  | header construct span => exact absurd (Except.ok.inj hok) (hpush _ _)
  | function keyword span =>
    obtain rfl := Except.ok.inj hok
    cases hgroup
  | params name keyword span => exact absurd (Except.ok.inj hok) (hpush _ _)
  | body head unnamed close => cases hok
  | target decl span => cases hok
  | initializer decl name span =>
    have hok : b.declareBare decl name span >>= (·.handle previous ⟨.word "(", opening⟩) =
      .ok start := hok
    obtain ⟨declared, hdeclared, hok⟩ := bind_eq_ok_iff.mp hok
    cases decl with
    | const => cases hdeclared
    | _ =>
      obtain rfl := Except.ok.inj hdeclared
      refine hmeet _ (expectation_mapLevel _ _) (previous_setLevel _ _) ?_ hok fun text place => ?_
      · rw [mapLevel, level_setLevel]
        rfl
      · rw [mapLevel, ← setLevel_previous]
        rfl
  | otherwise =>
    have hok : b.tryLevel Level.closeLine >>= (·.handle previous ⟨.word "(", opening⟩) =
      .ok start := hok
    obtain ⟨closed, hclosed, hok⟩ := bind_eq_ok_iff.mp hok
    obtain ⟨level, hlevel, rfl⟩ := tryLevel_eq_ok hclosed
    refine hmeet _ (expectation_setLevel _ _) (previous_setLevel _ _) ?_ hok fun text place => ?_
    · rw [level_setLevel, Level.closeLine_groups hlevel]
    · rw [← setLevel_previous]
      change b.level.closeLine >>= _ >>= _ = _
      rw [hlevel]
      rfl

/-! ## The tokens of a group on their own -/

/-- What a program that is one expression ends with. -/
theorem finish_expression {b : Builder} {tree : Node} (hframes : b.frames = [])
    (hany : b.expectation = .any) {run : Run} (hroot : b.root = { run := run })
    (htree : Run.assemble run.reverse = .ok tree) :
    b.finish none = .ok { body := [tree] } := by
  rcases b with ⟨root, frames, expectation, previous, anonymous⟩
  obtain rfl : frames = [] := hframes
  obtain rfl : expectation = .any := hany
  obtain rfl : root = { run := run } := hroot
  cases run with
  | nil => simp [Run.assemble, Run.reduce] at htree
  | cons item run =>
    have hline : Level.closeLine { run := item :: run } =
        .ok { lines := [tree] } := by
      simp only [Level.closeLine, Level.closeExpression, htree]
      rfl
    change Level.closeLine { run := item :: run } >>= _ = _
    rw [hline]
    rfl

/-- Tokens that are read after a `(` are read in the same way on their own. -/
theorem foldlM_feed_alone {tokens : List Token} {anonymous : Nat} {b : Builder}
    (htokens : tokens ≠ [])
    (h : tokens.foldlM feed { previous := .token (.word "("), anonymous := anonymous } = .ok b) :
    ∃ b', tokens.foldlM feed {} = .ok b' ∧ b'.change .shape = b.change .shape := by
  have hthere := foldlM_feed_change .shape { previous := .token (.word "("), anonymous := anonymous }
    tokens fun token _ => Change.keeps_shape token.kind
  have hhere := foldlM_feed_change .shape {} tokens fun token _ => Change.keeps_shape token.kind
  have hsame : (tokens.map (Token.change .shape)).foldlM (feedBy .blank) ({} : Builder) =
      (tokens.map (Token.change .shape)).foldlM (feedBy .blank)
        { previous := .token (.word "(") } := by
    obtain ⟨token, rest, rfl⟩ := List.exists_cons_of_ne_nil htokens
    rw [List.map_cons, List.foldlM_cons, List.foldlM_cons]
    exact congrArg (· >>= _)
      (feedBy_previous (b := {}) (p := .start) (by decide) (by decide) rfl .blank _)
  rw [h] at hthere
  have hthere := hsame.trans hthere
  cases hfeed : tokens.foldlM feed {} with
  | ok b' =>
    rw [hfeed] at hhere
    exact ⟨b', rfl, Except.ok.inj (Eq.trans (Eq.symm hhere) hthere)⟩
  | error e =>
    rw [hfeed] at hhere
    cases Eq.trans (Eq.symm (hhere Change.solid_shape)) hthere

end Builder

/-! ## The run of a group -/

namespace Run

theorem change_raise (c : Change) (weight : Nat) (run : Run) :
    (run.map (RunItem.raise weight)).map (RunItem.change c 0) = run.map (RunItem.change c weight) := by
  rw [List.map_map]
  refine List.map_congr_left fun item _ => ?_
  cases item <;> rfl

theorem raise_change (c : Change) (weight : Nat) (run : Run) :
    (run.map (RunItem.change c 0)).map (RunItem.raise weight) = run.map (RunItem.change c weight) := by
  rw [List.map_map]
  refine List.map_congr_left fun item _ => ?_
  cases item <;> rfl

/-- A run folds as its raised items do, up to places and numbers. -/
theorem assemble_raised {run run' : Run} {weight : Nat} {node : Node}
    (hrun : run'.map (RunItem.change .shape 0) = run.map (RunItem.change .shape 0))
    (h : assemble (run.map (RunItem.raise weight)).reverse = .ok node) :
    ∃ tree, assemble run'.reverse = .ok tree ∧ tree.change .shape = node.change .shape := by
  have hraised := assemble_change .shape 0 (run.map (RunItem.raise weight)).reverse
  have hhere := assemble_change .shape weight run'.reverse
  rw [h, List.map_reverse, change_raise, ← raise_change] at hraised
  rw [List.map_reverse, ← raise_change, hrun] at hhere
  have hraised : assemble ((run.map (RunItem.change .shape 0)).map (RunItem.raise weight)).reverse =
    .ok (node.change .shape) := hraised
  rw [hraised] at hhere
  cases htree : assemble run'.reverse with
  | ok tree =>
    rw [htree] at hhere
    exact ⟨tree, rfl, (Except.ok.inj hhere).symm⟩
  | error e =>
    rw [htree] at hhere
    cases hhere Change.solid_shape

variable {limit : Nat} {run before : Run}

/-- The run of a group, between what is before it and behind it, folds to one operand. -/
theorem fold_raised (hfirst : ∀ op p span, run.getLast? = some (.operator op p span) →
      op.isInfix = false)
    (hlast : ∃ node rest, run = .operand node :: rest)
    (hbefore : ∀ op p span, before.head? = some (.operator op p span) →
      p < (limit + 1) * groupWeight)
    {behind : Run} (hedge : Edge limit behind) {node : Node}
    (h : assemble (behind ++ (run.map (RunItem.raise ((limit + 1) * groupWeight)) ++ before)).reverse =
      .ok node) :
    ∃ g, assemble (run.map (RunItem.raise ((limit + 1) * groupWeight))).reverse = .ok g ∧
      assemble (behind ++ .operand g :: before).reverse = .ok node := by
  obtain ⟨last, rest, rfl⟩ := hlast
  let raised := ((RunItem.operand last :: rest).map (RunItem.raise ((limit + 1) * groupWeight)))
  have hsplit : (behind ++ (raised ++ before)).reverse =
      before.reverse ++ raised.reverse ++ behind.reverse := by simp
  rw [hsplit] at h
  obtain ⟨ended, hread⟩ := follow_of_assemble h
  have hmiddle : follow false raised.reverse = some true := by
    have hend : raised.reverse.getLast? = some (.operand last) := by
      rw [List.getLast?_reverse]
      rfl
    refine follow_stretch hread (fun op p span hop => ?_) hend
    rw [List.head?_reverse, List.getLast?_map, Option.map_eq_some_iff] at hop
    obtain ⟨item, hitem, hop⟩ := hop
    cases item with
    | operand node => cases hop
    | operator op' q place =>
      obtain ⟨rfl, -⟩ : op' = op ∧ _ := by simpa [RunItem.raise] using hop
      exact hfirst op' q place hitem
  have hbound : ∀ op p span, .operator op p span ∈ raised.reverse →
      (limit + 1) * groupWeight ≤ p := by
    intro op p span hmem
    obtain ⟨item, -, hop⟩ := List.mem_map.mp (List.mem_reverse.mp hmem)
    cases item with
    | operand node => cases hop
    | operator op' q place =>
      obtain ⟨-, rfl, -⟩ : op' = op ∧ q + (limit + 1) * groupWeight = p ∧ _ := by
        simpa [RunItem.raise] using hop
      omega
  have hedges : Edges ((limit + 1) * groupWeight) before.reverse behind.reverse := by
    refine ⟨fun op p span hop => hbefore op p span ?_, fun op p span hop => hedge op p span ?_⟩
    · rwa [List.getLast?_reverse] at hop
    · rwa [List.head?_reverse] at hop
  obtain ⟨g, hg, hnode⟩ := assemble_middle h hmiddle hbound hedges
  exact ⟨g, hg, by simpa using hnode⟩

end Run

namespace Builder

variable {limit : Nat} {run before : Run} {core below : Builder} {level : Level}

/-- The tokens behind a group make the same program of the one operand that it folds to. -/
theorem readBy_folded (hfirst : ∀ op p span, run.getLast? = some (.operator op p span) →
      op.isInfix = false)
    (hlast : ∃ node rest, run = .operand node :: rest)
    (hbefore : ∀ op p span, before.head? = some (.operator op p span) →
      p < (limit + 1) * groupWeight)
    {tokens : List Token} (hwaits : Waits limit core level [] tokens)
    (hend : ∀ token ∈ tokens, token.kind ≠ .eof) {ending : Option Span} {program : Program}
    (hok : (core.atop below (level.behind
      (run.map (RunItem.raise ((limit + 1) * groupWeight)) ++ before)) []).readBy .counted tokens
        ending = .ok program) :
    ∃ g, Run.assemble (run.map (RunItem.raise ((limit + 1) * groupWeight))).reverse = .ok g ∧
      (core.atop below (level.behind (.operand g :: before)) []).readBy .counted tokens ending =
        .ok program := by
  have hfold : ∀ behind, Edge limit behind → ∀ node, Run.assemble (behind ++
      (run.map (RunItem.raise ((limit + 1) * groupWeight)) ++ before)).reverse = .ok node →
      ∃ g, Run.assemble (run.map (RunItem.raise ((limit + 1) * groupWeight))).reverse = .ok g ∧
        Run.assemble (behind ++ .operand g :: before).reverse = .ok node :=
    fun behind hedge node => Run.fold_raised hfirst hlast hbefore hedge
  obtain ⟨last, rest, rfl⟩ := hlast
  cases rest with
  | nil => exact ⟨last, by simp [RunItem.raise, Run.assemble], hok⟩
  | cons next rest =>
    let raised := (RunItem.operand last :: next :: rest).map
      (RunItem.raise ((limit + 1) * groupWeight))
    have hlength : 2 ≤ (raised ++ before).length := by
      simp only [raised, List.map_cons, List.cons_append, List.length_cons]
      omega
    rw [readBy, feedBy_counted] at hok
    -- The run is folded at last, and so the group folds to some operand.
    have hsome : Stands limit (∃ g, Run.assemble raised.reverse = .ok g) (raised ++ before)
        (raised ++ before) :=
      ⟨hlength, fun behind hedge node hnode =>
        ⟨(hfold behind hedge node hnode).imp fun _ => And.left, hnode⟩⟩
    obtain ⟨⟨g, hg⟩, -⟩ := hwaits.run hsome hend ending program hok
    have hstands : Stands limit True (raised ++ before) (.operand g :: before) := by
      refine ⟨hlength, fun behind hedge node hnode => ⟨trivial, ?_⟩⟩
      obtain ⟨g', hg', hnode'⟩ := hfold behind hedge node hnode
      obtain rfl : g = g' := Except.ok.inj (hg.symm.trans hg')
      exact hnode'
    refine ⟨g, hg, ?_⟩
    rw [readBy, feedBy_counted]
    exact (hwaits.run hstands hend ending program hok).2

end Builder

/-! ## Reading a group -/

/-- Tokens without an end are read first. -/
theorem Program.ofTokens_append {live after : List Token}
    (hlive : ∀ token ∈ live, token.kind ≠ .eof) :
    Program.ofTokens (live ++ after) = live.foldlM Builder.feed {} >>= fun b =>
      b.readBy .counted (after.takeWhile (·.kind ≠ .eof))
        ((after.find? (·.kind = .eof)).map (·.span)) := by
  have htake : (live ++ after).takeWhile (·.kind ≠ .eof) =
      live ++ after.takeWhile (·.kind ≠ .eof) := by
    rw [List.takeWhile_append_of_pos (by simpa using hlive)]
  have hfind : (live ++ after).find? (·.kind = .eof) = after.find? (·.kind = .eof) := by
    rw [List.find?_append, List.find?_eq_none.mpr (by simpa using hlive), Option.none_or]
  rw [Program.ofTokens, htake, hfind, List.foldlM_append, bind_assoc]
  simp only [Builder.readBy, Builder.feedBy_counted]

theorem loose_takeWhile {limit depth : Nat} {tokens : List Token}
    (h : loose limit depth tokens = true) :
    loose limit depth (tokens.takeWhile (·.kind ≠ .eof)) = true := by
  induction tokens generalizing depth with
  | nil => rfl
  | cons token rest ih =>
    by_cases hend : token.kind = .eof
    · rw [List.takeWhile_cons_of_neg (by simpa using hend)]
      rfl
    · rw [List.takeWhile_cons_of_pos (by simpa using hend)]
      rw [loose] at h ⊢
      split
      · rename_i hopen
        rw [if_pos hopen] at h
        exact ih h
      · rename_i hopen
        rw [if_neg hopen] at h
        split
        · rename_i hclose
          rw [if_pos hclose, Bool.or_eq_true] at h
          rw [Bool.or_eq_true]
          exact h.imp id ih
        · rename_i hclose
          rwa [if_neg hclose] at h

namespace Group

variable {g : Group} {program : Program}

/-- The tokens behind the group, up to the end. -/
def rest (g : Group) : List Token := g.after.takeWhile (·.kind ≠ .eof)

/-- Where the end stands. -/
def ending (g : Group) : Option Span := (g.after.find? (·.kind = .eof)).map (·.span)

theorem rest_live : ∀ token ∈ g.rest, token.kind ≠ .eof := by
  intro token htoken
  simpa using List.all_eq_true.mp List.all_takeWhile token htoken

/-- The `)` is read, and then the tokens behind it. -/
theorem closing_read (h : Program.ofTokens g.tokens = .ok program) :
    ∃ closed, g.last.feed ⟨.word ")", g.closing⟩ = .ok closed ∧
      closed.readBy .counted g.rest g.ending = .ok program := by
  have htokens : g.tokens = (g.before ++ ⟨.word "(", g.opening⟩ :: g.inner ++
      [⟨.word ")", g.closing⟩]) ++ g.after := by simp [tokens]
  have hlive : ∀ token ∈ g.before ++ ⟨.word "(", g.opening⟩ :: g.inner ++
      [⟨.word ")", g.closing⟩], token.kind ≠ .eof := by
    have := g.live
    simp only [List.mem_append, List.mem_cons, List.not_mem_nil, or_false] at this ⊢
    grind
  rw [htokens, Program.ofTokens_append hlive, List.foldlM_append, List.foldlM_append,
    g.before_read, ok_bind, List.foldlM_cons, g.opening_read, ok_bind, g.inner_read, ok_bind,
    List.foldlM_cons] at h
  obtain ⟨closed, hclosed, hok⟩ := bind_eq_ok_iff.mp h
  obtain ⟨closed', hfeed, hclosed⟩ := bind_eq_ok_iff.mp hclosed
  obtain rfl := Except.ok.inj hclosed
  exact ⟨_, hfeed, hok⟩

/-- The builder that reads the tokens in the group on their own. -/
def fresh (g : Group) : Builder :=
  { previous := .token (.word "("), anonymous := g.start.anonymous }

/-- What is read in the group is read on its own. -/
theorem Neat.inside (hneat : g.Neat) {groups : List Span}
    {read : String → Span → Except BuildError Builder}
    (hopened : Builder.Opened g.opening g.outer.level.groups.length g.start read groups) :
    ∃ inner, g.inner.foldlM Builder.feed g.fresh = .ok inner ∧ g.last = g.start.graft inner ∧
      inner.Alone [] ∧ inner.parens = 0 := by
  have hgraft : g.start.graft g.fresh = g.start :=
    Builder.graft_fresh hopened.expectation hopened.previous
  have halone : g.fresh.Alone g.inner :=
    ⟨rfl, rfl, rfl, by simp [Builder.Valued, fresh], fun _ => Or.inl rfl, by simp [fresh],
      by simp [fresh], fun _ _ _ => ⟨rfl, hneat.first⟩⟩
  have hplain : Builder.along (Builder.isPlain g.start) (g.start.graft g.fresh) g.inner = true := by
    rw [hgraft]
    exact hneat.plain
  have hread : g.inner.foldlM Builder.feed (g.start.graft g.fresh) = .ok g.last := by
    rw [hgraft]
    exact g.inner_read
  exact halone.run (by simp [hopened.level]) g.matched hplain
    (fun token htoken => g.live token (List.mem_append_right _ htoken)) hread

/-- **The tokens of the group are read as they are on their own, and the rest makes the same program
of the one operand that they fold to.** -/
theorem Neat.folds (hneat : g.Neat) (h : Program.ofTokens g.tokens = .ok program)
    {groups : List Span} {read : String → Span → Except BuildError Builder}
    (hopened : Builder.Opened g.opening g.outer.level.groups.length g.start read groups) :
    ∃ inner run node, g.inner.foldlM Builder.feed g.fresh = .ok inner ∧ inner.frames = [] ∧
      inner.expectation = .any ∧ inner.root = { run := run } ∧
      Run.assemble (run.map
        (RunItem.raise (g.start.level.groups.length * groupWeight))).reverse = .ok node ∧
      node.isStatement = false ∧
      ((inner.past ⟨.word ")", g.closing⟩).holding g.start groups node).readBy .counted g.rest
        g.ending = .ok program := by
  obtain ⟨closed, hclosed, hok⟩ := closing_read h
  obtain ⟨inner, hinner, hgraft, hinside, hparens⟩ := hneat.inside hopened
  rw [hgraft] at hclosed
  obtain ⟨hframes, hany, hgroups, hrun, rfl⟩ := hinside.close hparens hopened.level hclosed
  have hwaits : Builder.Waits g.outer.level.groups.length (inner.past ⟨.word ")", g.closing⟩)
      { g.start.level with run := [], groups := groups } [] g.rest := by
    have hprevious : (Previous.token (.word ")")).isCallable = false := by decide
    have hloose : loose g.outer.level.groups.length groups.length g.rest = true := by
      rw [hopened.length]
      exact loose_takeWhile hneat.behind
    exact ⟨by simp [Builder.Valued], fun _ => Or.inl rfl, nofun, fun _ _ _ => ⟨hprevious, hloose⟩⟩
  have hlast : ∃ node rest, inner.root.run = .operand node :: rest := by
    have hlast := hneat.last
    rw [hgraft, Builder.level_graft hframes] at hlast
    obtain ⟨item, items, hitems⟩ := List.exists_cons_of_ne_nil hrun
    cases item with
    | operand node => exact ⟨node, items, hitems⟩
    | operator op p span => simp [Level.graft, hitems, RunItem.raise, RunItem.isOperator] at hlast
  have hahead := hneat.ahead
  rw [g.groups] at hahead ⊢
  obtain ⟨node, hnode, hprogram⟩ := Builder.readBy_folded hinside.first hlast hahead hwaits
    rest_live (by rw [← g.groups]; exact hok)
  refine ⟨inner, inner.root.run, node, hinner, hframes, hany, ?_, hnode, ?_, hprogram⟩
  · rw [← hinside.items, ← hinside.lines, ← hinside.parts, ← hgroups]
  · refine Run.isStatement_of_assemble hnode fun operand hoperand => ?_
    obtain ⟨item, hitem, heq⟩ := List.mem_map.mp (List.mem_reverse.mp hoperand)
    cases item with
    | operand other =>
      obtain rfl : other = operand := by simpa [RunItem.raise] using heq
      exact hinside.operands other hitem
    | operator op p span => cases heq

end Group

/-! ## A tree in the place of a group -/

theorem Node.isStatement_shape (node : Node) :
    (node.change .shape).isStatement = node.isStatement := by
  cases node with
  | assign target var decl op value span => cases decl <;> cases op <;> rfl
  | _ => rfl

/-- The builder looks into nothing but names and statements. -/
theorem Node.isOpen_eq_false {node : Node} (hname : ∀ name var span, node ≠ .ident name var span)
    (hstatement : node.isStatement = false) : node.isOpen = false := by
  cases node with
  | ident name var span => exact absurd rfl (hname name var span)
  | block body span => cases hstatement
  | assign target var decl op value span =>
    cases decl <;> cases op <;> first | rfl | cases hstatement
  | _ => rfl

/-- One expression on its own makes one statement, the tree that its run folds to. -/
theorem Builder.ofTokens_expression {tokens : List Token} {b inner : Builder} {weight : Nat}
    {node : Node} (hend : ∀ token ∈ tokens, token.kind ≠ .eof)
    (hb : tokens.foldlM Builder.feed {} = .ok b) (hshape : b.change .shape = inner.change .shape)
    (hframes : inner.frames = []) (hany : inner.expectation = .any)
    {run : Run} (hroot : inner.root = { run := run })
    (hnode : Run.assemble (run.map (RunItem.raise weight)).reverse = .ok node) :
    ∃ tree, Program.ofTokens tokens = .ok { body := [tree] } ∧
      tree.change .shape = node.change .shape := by
  have hlevel : b.root.change .shape = Level.change .shape { run := run } := by
    rw [← hroot]
    exact congrArg Builder.root hshape
  obtain ⟨tree, htree, hsame⟩ := Run.assemble_raised (congrArg Level.run hlevel) hnode
  refine ⟨tree, ?_, hsame⟩
  have hfinish : b.finish none = .ok { body := [tree] } := by
    refine Builder.finish_expression ?_ ?_ ?_ htree
    · have hnil := congrArg Builder.frames hshape
      simpa [Builder.change, hframes] using hnil
    · have hkind : b.expectation.change .shape = inner.expectation.change .shape :=
        congrArg Builder.expectation hshape
      rw [hany] at hkind
      cases hexpectation : b.expectation <;> simp [hexpectation, Expectation.change] at hkind ⊢
    · rcases hroot' : b.root with ⟨run', items, lines, parts, groups⟩
      rw [hroot'] at hlevel
      simpa [Level.change] using (Level.mk.inj hlevel).2
  rw [← List.append_nil tokens, Program.ofTokens_append hend, hb, ok_bind]
  exact hfinish

namespace Builder

variable {start core : Builder} {groups : List Span} {text : String} (place : Span)
  {tree node : Node}

/-- With the tree in the place of the literal, a builder that has read the literal is one that has
read an operand of the same shape. -/
theorem inPlace_change (hsame : tree.change .shape = node.change .shape)
    (hstart : start.change (.plug text tree) = start.change .shape)
    (hany : start.expectation = .any) (hcore : core.expectation = .any) :
    (start.inPlace groups text place).change (.plug text tree) =
      { (core.holding start groups node).change .shape with
        previous := .token (.literal text) } := by
  have hliteral : Node.change (.plug text tree) (.str text place) = node.change .shape := by
    rw [← hsame, Node.change]
    exact if_pos rfl
  have hlevel : start.level.change (.plug text tree) = start.level.change .shape := by
    rw [← level_change, hstart, level_change]
  obtain ⟨hrun, hitems, hlines, hparts, -⟩ := Level.mk.inj hlevel
  rw [inPlace, holding, holding, atop_change, atop_change, hstart]
  have hfields : Level.change (.plug text tree)
      { start.level with run := .operand (.str text place) :: start.level.run, groups := groups } =
      Level.change .shape
        { start.level with run := .operand node :: start.level.run, groups := groups } := by
    simp only [Level.change, List.map_cons, RunItem.change, hliteral, hrun, hitems, hlines, hparts]
    rfl
  rw [hfields]
  simp only [atop, on, change, hany, hcore, Expectation.change]
  rfl

/-- Whatever comes behind, it makes the same program of the operand as of the literal, with the tree
in its place. -/
theorem readBy_plug (hsame : tree.change .shape = node.change .shape)
    (hstart : start.change (.plug text tree) = start.change .shape)
    (hany : start.expectation = .any) (hcore : core.expectation = .any)
    (hprevious : core.previous = .token (.word ")")) {tokens : List Token} {ending : Option Span}
    (hfresh : ∀ token ∈ tokens, token.kind ≠ .literal text) {program : Program}
    (h : (core.holding start groups node).readBy .counted tokens ending = .ok program) :
    (Change.plug text tree).Follows (Program.change (.plug text tree))
      ((start.inPlace groups text place).readBy .counted tokens ending)
      (.ok (program.change .shape)) := by
  have hshape := readBy_change .shape (core.holding start groups node) tokens ending
    fun token _ => Change.keeps_shape token.kind
  have hplug := readBy_change (.plug text tree) (start.inPlace groups text place) tokens ending
    fun token htoken => Change.keeps_plug (hfresh token htoken)
  have hfolded : (core.holding start groups node).change .shape =
      { (core.holding start groups node).change .shape with previous := .token (.word ")") } := by
    rw [← hprevious]
    rfl
  have hkind : ((core.holding start groups node).change .shape).expectation = .any := by
    simp [holding, atop, on, change, hcore, Expectation.change]
  rw [h, hfolded] at hshape
  rw [inPlace_change place hsame hstart hany hcore] at hplug
  have hread := readBy_previous (p := .token (.word ")")) (q := .token (.literal text)) rfl rfl
    hkind .blank (tokens.map (Token.change .shape)) (ending.map Change.shape.span)
  exact (hread.symm.trans hshape) ▸ hplug

end Builder

namespace Group

variable (g : Group) {text : String}

/-- Nothing before the group is changed by what stands in the place of the literal. -/
theorem start_plug {tree : Node} (hfresh : ∀ token ∈ g.before ++ g.after, token.kind ≠ .literal text) :
    g.start.change (.plug text tree) = g.start.change .shape := by
  have hread : List.foldlM Builder.feed {} (g.before ++ [⟨.word "(", g.opening⟩]) =
      .ok g.start := by
    rw [List.foldlM_append, g.before_read, ok_bind, List.foldlM_cons, g.opening_read]
    rfl
  refine Builder.change_plug hread fun token htoken => ?_
  rcases List.mem_append.mp htoken with hbefore | hopen
  · exact hfresh token (List.mem_append_left _ hbefore)
  · obtain rfl := List.mem_singleton.mp hopen
    simp

theorem literal_live (text : String) (place : Span) :
    ∀ token ∈ g.before ++ [⟨.literal text, place⟩], token.kind ≠ .eof := by
  intro token htoken
  rcases List.mem_append.mp htoken with hbefore | hliteral
  · exact g.live token (List.mem_append_left _ hbefore)
  · obtain rfl := List.mem_singleton.mp hliteral
    simp

/-- The literal is read where the group was opened, and then the tokens behind the group. -/
theorem replaced_read {groups : List Span} (hopened : Builder.Opened g.opening
      g.outer.level.groups.length g.start
      (fun text place => g.outer.feed ⟨.literal text, place⟩) groups) {place : Span} :
    Program.ofTokens (g.replaced text place) =
      (g.start.inPlace groups text place).readBy .counted g.rest g.ending := by
  rw [replaced, List.append_cons, Program.ofTokens_append (g.literal_live text place),
    List.foldlM_append, g.before_read, ok_bind, List.foldlM_cons, hopened.literal text place]
  rfl

theorem literal_mem_replaced (text : String) (place : Span) : .literal text ∈
    ((g.replaced text place).takeWhile (·.kind ≠ .eof)).map Token.kind := by
  have hlive := g.literal_live text place
  rw [replaced, List.append_cons, List.takeWhile_append_of_pos (by simpa using hlive)]
  simp

end Group

/-- **A group is a unit.** Let a program have a group that holds an expression, next to no operator
of another group. The tokens in it make one statement on their own. With a literal in the place of
the group the tokens make a context, unless the statement is a name, which may be a target there;
and the program is the context with the tree of the statement in the place of the literal, up to
places and the numbers of functions without a name. -/
theorem Program.ofTokens_group {g : Group} {program : Program}
    (h : Program.ofTokens g.tokens = .ok program) (hneat : g.Neat) :
    ∃ tree, Program.ofTokens g.inner = .ok { body := [tree] } ∧
      ∀ text place, (∀ token ∈ g.before ++ g.after, token.kind ≠ .literal text) →
        ((∀ name var span, tree ≠ .ident name var span) →
          ∃ context, Program.ofTokens (g.replaced text place) = .ok context) ∧
        ∀ context, Program.ofTokens (g.replaced text place) = .ok context →
          program.change .shape = context.change (.plug text tree) ∧
          ∃ chain, (program.change .shape).Occurs chain (tree.change .shape) := by
  obtain ⟨groups, hopened⟩ := Builder.opened_feed g.opening_read g.groups
  obtain ⟨inner, run, node, hinner, hframes, hany, hroot, hnode, hstatement, hprogram⟩ :=
    hneat.folds h hopened
  have hne : g.inner ≠ [] := by
    intro hnil
    have hfirst := hneat.first
    rw [hnil] at hfirst
    cases hfirst
  obtain ⟨alone, halone, hshape⟩ := Builder.foldlM_feed_alone hne hinner
  obtain ⟨tree, htree, hsame⟩ := Builder.ofTokens_expression
    (fun token htoken => g.live token (List.mem_append_right _ htoken)) halone hshape hframes hany
    hroot hnode
  refine ⟨tree, htree, fun text place hfresh => ?_⟩
  have hrest : ∀ token ∈ g.rest, token.kind ≠ .literal text := fun token htoken =>
    hfresh token (List.mem_append_right _ ((List.takeWhile_sublist _).subset htoken))
  have hfollows := Builder.readBy_plug place hsame (g.start_plug hfresh) hopened.expectation rfl rfl
    hrest hprogram
  rw [← g.replaced_read hopened] at hfollows
  constructor
  · intro hname
    cases hok : Program.ofTokens (g.replaced text place) with
    | ok context => exact ⟨context, rfl⟩
    | error e =>
      have hopen : tree.isOpen = false := by
        rw [← Node.isStatement_shape, ← hsame, Node.isStatement_shape] at hstatement
        exact Node.isOpen_eq_false hname hstatement
      rw [hok] at hfollows
      cases hfollows (Change.solid_plug hopen)
  · intro context hok
    rw [hok] at hfollows
    have hprogram : program.change .shape = context.change (.plug text tree) :=
      Except.ok.inj hfollows
    obtain ⟨chain, place', hoccurs⟩ := Program.occurs_literal (.plug text tree) hok
      (g.literal_mem_replaced text place)
    refine ⟨hprogram, chain, ?_⟩
    rw [hprogram]
    simpa [Change.plug] using hoccurs

/-! ## Two groups -/

/-- The group that stands between the tokens, if they can be read and it is one. -/
def Group.between? (before inner after : List Token) : Option Group :=
  match hbefore : before.foldlM Builder.feed {} with
  | .error _ => none
  | .ok outer =>
    match hopening : outer.feed ⟨.word "(", .nowhere⟩ with
    | .error _ => none
    | .ok start =>
      match hinner : inner.foldlM Builder.feed start with
      | .error _ => none
      | .ok last =>
        if h : start.level.groups.length = outer.level.groups.length + 1 ∧
            Builder.balanced 0 inner = true ∧ ∀ token ∈ before ++ inner, token.kind ≠ .eof then
          some ⟨before, .nowhere, inner, .nowhere, after, outer, start, last, hbefore, hopening,
            hinner, h.1, h.2.1, h.2.2⟩
        else none

theorem Group.between?_eq_some {before inner after : List Token} {g : Group}
    (h : between? before inner after = some g) :
    g.inner = inner ∧ g.tokens =
      before ++ ⟨.word "(", .nowhere⟩ :: inner ++ ⟨.word ")", .nowhere⟩ :: after := by
  unfold between? at h
  split at h
  · cases h
  · split at h
    · cases h
    · split at h
      · cases h
      · split at h
        · cases h
          exact ⟨rfl, rfl⟩
        · cases h

/-- Whether an operator at the end of the run would be taken for one of the group. -/
def Group.isAhead (g : Group) : Bool :=
  match g.start.level.run.head? with
  | some (.operator _ p _) => decide (p < g.start.level.groups.length * groupWeight)
  | _ => true

/-- The difference in `f(2 * (1 - x))`, an operand of a product that is an argument. -/
theorem Program.ofTokens_group_factor : ∃ (g : Group) (program : Program),
    g.inner = [.int 1, .word "-", .word "x"].map (⟨·, .nowhere⟩) ∧
    Program.ofTokens g.tokens = .ok program ∧ g.Neat ∧
    ∃ tree, Program.ofTokens g.inner = .ok { body := [tree] } ∧
      ∀ text place, (∀ token ∈ g.before ++ g.after, token.kind ≠ .literal text) →
        ((∀ name var span, tree ≠ .ident name var span) →
          ∃ context, Program.ofTokens (g.replaced text place) = .ok context) ∧
        ∀ context, Program.ofTokens (g.replaced text place) = .ok context →
          program.change .shape = context.change (.plug text tree) ∧
          ∃ chain, (program.change .shape).Occurs chain (tree.change .shape) := by
  have htest : (Group.between? ([.word "f", .word "(", .int 2, .word "*"].map (⟨·, .nowhere⟩))
      ([.int 1, .word "-", .word "x"].map (⟨·, .nowhere⟩)) ([.word ")"].map (⟨·, .nowhere⟩))).any
      (fun g => Builder.along (Builder.isPlain g.start) g.start g.inner && Builder.begins g.inner &&
        (g.last.level.run.head?.map RunItem.isOperator == some false) && g.isAhead &&
        loose g.outer.level.groups.length g.outer.level.groups.length g.after &&
        (Program.ofTokens g.tokens).isOk) = true := by
    decide +kernel
  obtain ⟨g, hg, htest⟩ := Option.any_eq_true _ _ |>.mp htest
  simp only [Bool.and_eq_true, beq_iff_eq] at htest
  obtain ⟨⟨⟨⟨⟨hplain, hfirst⟩, hlast⟩, hahead⟩, hbehind⟩, hok⟩ := htest
  obtain ⟨program, hprogram⟩ := exists_ok_of_isOk hok
  have hneat : g.Neat := by
    refine ⟨hplain, hfirst, hlast, fun op p span hrun => ?_, hbehind⟩
    rw [Group.isAhead, hrun] at hahead
    exact of_decide_eq_true hahead
  exact ⟨g, program, (Group.between?_eq_some hg).1, hprogram, hneat,
    Program.ofTokens_group hprogram hneat⟩

/-- Nodes that hold the statements of a program and all that stands below them. -/
theorem Program.Occurs.mem_of_closed {program : Program} {chain : List Region} {node : Node}
    (h : program.Occurs chain node) (nodes : List Node) (hbody : ∀ node ∈ program.body, node ∈ nodes)
    (hparts : ∀ node ∈ nodes, node.parts.map Prod.snd ⊆ nodes) : node ∈ nodes := by
  induction h with
  | statement hmem => exact hbody _ hmem
  | part _ hpart ih => exact hparts _ ih (List.mem_map_of_mem hpart)

/-- In `y = (var x = 4) + 1` the declaration takes in what stands behind its group. The tokens in the
group make one statement, which does not occur in the program. -/
theorem Program.declaration_leaves_group : ∃ (g : Group) (program : Program) (tree : Node),
    g.inner = [.word "var", .word "x", .word "=", .int 4].map (⟨·, .nowhere⟩) ∧
    Program.ofTokens g.tokens = .ok program ∧ Program.ofTokens g.inner = .ok { body := [tree] } ∧
    ∀ chain, ¬ (program.change .shape).Occurs chain (tree.change .shape) := by
  have hgroup : (Group.between? ([.word "y", .word "="].map (⟨·, .nowhere⟩))
      ([.word "var", .word "x", .word "=", .int 4].map (⟨·, .nowhere⟩))
      ([.word "+", .int 1].map (⟨·, .nowhere⟩))).isSome = true := by
    decide +kernel
  obtain ⟨g, hg⟩ := Option.isSome_iff_exists.mp hgroup
  obtain ⟨hinner, htokens⟩ := Group.between?_eq_some hg
  let four : Node := .int 4 .nowhere
  let one : Node := .int 1 .nowhere
  let sum : Node := .binary .add four one .nowhere
  let declared : Node := .assign "x" .unresolved .var none sum .nowhere
  let whole : Node := .assign "y" .unresolved .plain none declared .nowhere
  let tree : Node := .assign "x" .unresolved .var none four .nowhere
  have hprogram : Program.ofTokens g.tokens = .ok { body := [whole] } := by
    rw [htokens]
    cbv
  have htree : Program.ofTokens g.inner = .ok { body := [tree] } := by
    rw [hinner]
    cbv
  refine ⟨g, _, tree, hinner, hprogram, htree, fun chain hoccurs => ?_⟩
  have hmem := hoccurs.mem_of_closed [whole, declared, sum, four, one]
    (by simp [Program.change, Node.change, Change.shape, whole, declared, sum, four, one])
    (by simp [Node.parts, whole, declared, sum, four, one])
  simp [tree, whole, declared, sum, four, one, Node.change, Change.shape] at hmem

end SlotScript
