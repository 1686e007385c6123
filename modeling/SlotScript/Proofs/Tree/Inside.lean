import SlotScript.Proofs.Tree.Frame
import SlotScript.Proofs.Tree.Nesting
import SlotScript.Proofs.Tree.Source

/-!
# What is read in a group
-/

namespace SlotScript

/-- The item with its precedence raised. -/
def RunItem.raise (weight : Nat) : RunItem → RunItem
  | .operand node => .operand node
  | .operator op p span => .operator op (p + weight) span

/-- The level in which the tokens of a group are read: what they make on their own, put behind what
was there when the group was opened. The groups that are open raise their operators. -/
def Level.graft (level inner : Level) : Level :=
  { level with
    run := inner.run.map (RunItem.raise (level.groups.length * groupWeight)) ++ level.run
    groups := inner.groups ++ level.groups }

theorem Node.isStatement_of_isValue {node : Node} (h : node.isValue = true) :
    node.isStatement = false := by
  cases node <;> first | rfl | cases h

namespace Builder

/-- The builder in which `inner` is read in a group that `start` has just opened. -/
def graft (start inner : Builder) : Builder :=
  inner.atop start (start.level.graft inner.root) inner.frames

/-- Whether the first token, the parentheses of further groups aside, starts an operand. -/
def begins : List Token → Bool
  | [] => false
  | token :: rest =>
    if token.kind = .word "(" then begins rest
    else token.kind != .word ")" && !token.kind.isInfix (.token (.word "("))

/-- What the tokens of a group have made on their own so far, with those that still have to come:
nothing but the items of a run, and the frames of calls and of functions that are values. -/
structure Alone (inner : Builder) (rest : List Token) : Prop where
  items : inner.root.items = []
  lines : inner.root.lines = []
  parts : inner.root.parts = []
  valued : Valued inner.frames
  expects : inner.frames = [] → inner.expectation = .any ∨
    (∃ keyword span, inner.expectation = .function keyword span) ∨
    ∃ head close, inner.expectation = .body head true close
  operands : ∀ node, .operand node ∈ inner.root.run → node.isStatement = false
  first : ∀ op p span, inner.root.run.getLast? = some (.operator op p span) → op.isInfix = false
  fresh : inner.frames = [] → inner.expectation = .any → inner.root.run = [] →
    inner.previous = .token (.word "(") ∧ begins rest = true

/-- Whether the token starts a statement, goes on with one, or names a function. -/
def startsStatement (b : Builder) (token : Token) : Bool :=
  match b.expectation with
  | .any => token.kind.startsStatement
  | .function .. => (nameOf? token).isSome
  | _ => false

variable {start inner b : Builder} {token : Token} {rest : List Token}

theorem mapLevel_of_frames {core : Builder} (h : core.frames = []) (f : Level → Level) :
    core.mapLevel f = core.on (f core.root) [] := by
  rcases core with ⟨root, frames, expectation, previous, anonymous⟩
  obtain rfl : frames = [] := h
  rfl

theorem graft_of_frames (h : inner.frames = []) :
    start.graft inner = inner.atop start (start.level.graft inner.root) [] := by
  rw [graft, h]

theorem graft_push (opener : Opener) (span : Span) :
    start.graft (inner.push opener span) = (start.graft inner).push opener span := rfl

/-- A change of the innermost level is the same in the group and alone. -/
theorem graft_mapLevel (h : inner.frames = []) {f g : Level → Level}
    (hf : g (start.level.graft inner.root) = start.level.graft (f inner.root)) :
    (start.graft inner).mapLevel g = start.graft (inner.mapLevel f) := by
  rw [graft_of_frames h, atop_nil_mapLevel, hf, mapLevel_of_frames h]
  rfl

theorem level_graft (h : inner.frames = []) :
    (start.graft inner).level = start.level.graft inner.root := by
  rw [graft_of_frames h, level_atop_nil]

/-- An item of the run is read. -/
theorem Alone.push (h : inner.Alone (token :: rest)) {item : RunItem} {core : Builder}
    (hoperand : ∀ node, item = .operand node → node.isStatement = false)
    (hfirst : inner.root.run = [] → ∀ op p span, item = .operator op p span → op.isInfix = false)
    (hany : core.expectation = .any) :
    Alone (core.on { inner.root with run := item :: inner.root.run } []) rest where
  items := h.items
  lines := h.lines
  parts := h.parts
  valued := by simp [on, Valued]
  expects _ := Or.inl hany
  operands node hnode := by
    rcases List.mem_cons.mp hnode with heq | hmem
    · exact hoperand node heq.symm
    · exact h.operands node hmem
  first op p span hlast := by
    cases hrun : inner.root.run with
    | nil =>
      have hlast : ([item] : Run).getLast? = some (.operator op p span) := hrun ▸ hlast
      exact hfirst hrun op p span (by simpa using hlast)
    | cons next run =>
      refine h.first op p span ?_
      rw [hrun]
      simpa [on, hrun] using hlast
  fresh _ _ hrun := by cases hrun

/-! ## Tokens directly in the group -/

/-- An operator of the group stands under the groups around it as well. -/
theorem Alone.act_operator (h : inner.Alone (token :: rest)) (hframes : inner.frames = [])
    (hany : inner.expectation = .any)
    (hshallow : (inner.root.groups ++ start.level.groups).length ≤ Source.depthLimit)
    {op : Operator} {base : Nat} (hbase : base ≤ 200)
    (hop : op.isInfix = token.kind.isInfix inner.previous) :
    (start.graft (inner.past token)).operator op base token.span =
        start.graft ((inner.past token).operator op base token.span) ∧
      ((inner.past token).operator op base token.span).Alone rest := by
  constructor
  · refine graft_mapLevel (by exact hframes) ?_
    have hinner : inner.root.groups.length ≤ Source.depthLimit := by
      rw [List.length_append] at hshallow
      omega
    have hraised : effectivePrecedence base (inner.root.groups ++ start.level.groups).length =
        effectivePrecedence base inner.root.groups.length +
          start.level.groups.length * groupWeight := by
      rw [Source.effectivePrecedence_eq hbase hshallow, Source.effectivePrecedence_eq hbase hinner,
        List.length_append, groupWeight]
      omega
    simp only [Level.operator, Level.graft, past, hraised, List.map_cons, RunItem.raise,
      List.cons_append]
  · rw [operator, mapLevel_of_frames (by exact hframes)]
    refine h.push (by simp) (fun hrun op' p span heq => ?_) rfl
    obtain ⟨rfl, -⟩ : op = op' ∧ _ := by simpa using heq
    obtain ⟨hprevious, hbegins⟩ := h.fresh hframes hany hrun
    rw [hop, hprevious]
    by_cases hparen : token.kind = .word "("
    · rw [hparen]
      rfl
    · rw [begins, if_neg hparen] at hbegins
      simpa using (Bool.and_eq_true_iff.mp hbegins).2

/-- A `(` that calls nothing alone calls nothing in the group either. -/
theorem Alone.grouped (h : inner.Alone (token :: rest)) (hframes : inner.frames = [])
    (hany : inner.expectation = .any)
    (hgroup : ∀ callee run, inner.root.run = .operand callee :: run →
      inner.previous.isCallable = false) {callee : Node} {run : Run}
    (hrun : inner.root.run.map (RunItem.raise (start.level.groups.length * groupWeight)) ++
      start.level.run = .operand callee :: run) :
    inner.previous.isCallable = false := by
  rcases hinner : inner.root.run with _ | ⟨node | _, items⟩
  · rw [(h.fresh hframes hany hinner).1]
    decide
  · exact hgroup node items hinner
  · simp [hinner, RunItem.raise] at hrun

/-- A `(` of the group opens a call or a further group. -/
theorem Alone.act_openParen (h : inner.Alone (token :: rest)) (hframes : inner.frames = [])
    (hany : inner.expectation = .any) (htoken : token.kind = .word "(") :
    (start.graft (inner.past token)).openParen inner.previous token.span =
        start.graft ((inner.past token).openParen inner.previous token.span) ∧
      ((inner.past token).openParen inner.previous token.span).Alone rest := by
  have hlevel : (inner.past token).level = inner.root := by simp [level, past, hframes]
  have hrun : (start.graft (inner.past token)).level.run = inner.root.run.map
      (RunItem.raise (start.level.groups.length * groupWeight)) ++ start.level.run := by
    rw [level_graft (by exact hframes)]
    rfl
  rcases called_or_grouped inner.previous inner.root.run with
    ⟨callee, run, hcallee, hcallable⟩ | hgroup
  · rw [hcallee] at hrun
    rw [openParen_call hrun hcallable, openParen_call (hlevel ▸ hcallee) hcallable]
    constructor
    · rw [graft_push]
      refine congrArg (Builder.push · (Opener.call callee) (callee.span.merge token.span)) ?_
      exact graft_mapLevel (by exact hframes) rfl
    · rw [mapLevel_of_frames (by exact hframes)]
      refine ⟨h.items, h.lines, h.parts, valued_single rfl, fun hnil => ?_,
        fun node hnode => h.operands node ?_, fun op p span hlast => h.first op p span ?_,
        fun hnil => ?_⟩
      · cases hnil
      · rw [hcallee]
        exact List.mem_cons_of_mem _ hnode
      · cases run with
        | nil => cases hlast
        | cons next run =>
          rw [hcallee]
          exact hlast
      · cases hnil
  · rw [openParen_group fun callee run hcallee => h.grouped hframes hany hgroup (hrun ▸ hcallee),
      openParen_group (by rwa [hlevel])]
    constructor
    · exact graft_mapLevel (by exact hframes) rfl
    · rw [mapLevel_of_frames (by exact hframes)]
      refine ⟨h.items, h.lines, h.parts, by simp [on, Valued], fun _ => Or.inl rfl, h.operands,
        h.first, fun _ _ hnil => ?_⟩
      have hbegins := (h.fresh hframes hany hnil).2
      rw [begins, if_pos htoken] at hbegins
      exact ⟨congrArg Previous.token htoken, hbegins⟩

/-- A `)` closes the innermost group that has been opened in the group. -/
theorem Alone.act_closeParen (h : inner.Alone (token :: rest)) (hframes : inner.frames = [])
    (hany : inner.expectation = .any) (htoken : token.kind = .word ")")
    (hinner : inner.root.groups ≠ []) :
    ∃ inner', (inner.past token).closeParen token.span = .ok inner' ∧
      (start.graft (inner.past token)).closeParen token.span = .ok (start.graft inner') ∧
      inner'.Alone rest := by
  obtain ⟨opening, groups, hgroups⟩ := List.exists_cons_of_ne_nil hinner
  have hlevel : (inner.past token).level = inner.root := by simp [level, past, hframes]
  have houter : (start.graft (inner.past token)).level.groups =
      opening :: (groups ++ start.level.groups) := by
    rw [level_graft (by exact hframes)]
    exact congrArg (· ++ start.level.groups) hgroups
  refine ⟨_, closeParen_group (b := inner.past token) (by rwa [hlevel]), ?_, ?_⟩
  · rw [closeParen_group houter]
    exact congrArg Except.ok (graft_mapLevel (by exact hframes) rfl)
  · rw [mapLevel_of_frames (by exact hframes)]
    refine ⟨h.items, h.lines, h.parts, by simp [on, Valued], fun _ => Or.inl rfl, h.operands,
      h.first, fun _ _ hnil => ?_⟩
    have hbegins := (h.fresh hframes hany hnil).2
    simp [begins, htoken] at hbegins

/-- A token that meets no expectation, read directly in the group. -/
theorem Alone.act {act : Builder → Except BuildError Builder}
    (h : inner.Alone (token :: rest)) (hframes : inner.frames = [])
    (hany : inner.expectation = .any) (hstart : start.level.groups ≠ [])
    (hopen : inner.root.groups = [] → token.kind ≠ .word ")")
    (hplain : token.kind.startsStatement = false) (hend : token.kind ≠ .eof)
    (hshallow : (inner.root.groups ++ start.level.groups).length ≤ Source.depthLimit)
    (hact : Act inner.previous token act) (hok : act (start.graft (inner.past token)) = .ok b) :
    ∃ inner', act (inner.past token) = .ok inner' ∧ b = start.graft inner' ∧ inner'.Alone rest := by
  have hgroups : (start.graft (inner.past token)).level.groups =
      inner.root.groups ++ start.level.groups := by
    rw [level_graft (by exact hframes)]
    rfl
  have hne : inner.root.groups ++ start.level.groups ≠ [] := by simp [hstart]
  obtain ⟨opening, groups, hcons⟩ := List.exists_cons_of_ne_nil hne
  cases hact with
  | operand node hnode =>
    refine ⟨_, rfl, ?_, ?_⟩
    · rw [← Except.ok.inj hok]
      exact graft_mapLevel (by exact hframes) rfl
    · rw [operand, mapLevel_of_frames (by exact hframes)]
      exact h.push (by simp [hnode]) (by simp) rfl
  | operator op base hbase hop =>
    obtain ⟨hgraft, halone⟩ := h.act_operator hframes hany hshallow hbase hop
    exact ⟨_, rfl, (Except.ok.inj hok).symm.trans hgraft, halone⟩
  | openParen htoken =>
    obtain ⟨hgraft, halone⟩ := h.act_openParen hframes hany htoken
    exact ⟨_, rfl, (Except.ok.inj hok).symm.trans hgraft, halone⟩
  | closeParen htoken =>
    obtain ⟨inner', hinner, hgraft, halone⟩ :=
      h.act_closeParen hframes hany htoken fun hnil => hopen hnil htoken
    exact ⟨inner', hinner, Except.ok.inj (hok.symm.trans hgraft), halone⟩
  -- In a group no statement ends and none begins.
  | closeBrace =>
    simp only [closeBrace, hgroups, hcons] at hok
    cases hok
  | comma =>
    simp only [comma, hgroups, hcons] at hok
    split at hok <;> simp_all
  | equals =>
    simp only [equals, hgroups, hcons] at hok
    cases hok
  | semicolon =>
    simp only [semicolon, endStatement, hgroups, hcons] at hok
    split at hok <;> simp_all
  | function keyword =>
    refine ⟨_, rfl, ?_, ?_⟩
    · rw [← Except.ok.inj hok]
      rfl
    · exact ⟨h.items, h.lines, h.parts, by simpa [past, hframes, expect] using h.valued,
        fun _ => Or.inr (Or.inl ⟨_, _, rfl⟩), h.operands, h.first, fun _ hkind => by cases hkind⟩
  | openBrace hbrace =>
    rw [hbrace] at hplain
    exact absurd hplain (by decide)
  | start expectation hstatement => simp [hplain] at hstatement
  | otherwise hstatement => simp [hplain] at hstatement
  | nothing htoken => exact absurd htoken hend
  | fails e => cases hok

/-! ## All tokens of the group -/

/-- While a call or a function is read in the group, nothing of the group itself changes. -/
theorem Alone.framed (h : inner.Alone (token :: rest)) {core : Builder} (hroot : core.root = inner.root)
    (hne : core.frames ≠ []) (hvalued : Valued core.frames) : core.Alone rest where
  items := hroot ▸ h.items
  lines := hroot ▸ h.lines
  parts := hroot ▸ h.parts
  valued := hvalued
  expects hnil := absurd hnil hne
  operands := hroot ▸ h.operands
  first := hroot ▸ h.first
  fresh hnil := absurd hnil hne

/-- Behind the keyword of a function that is a value come its parameters. -/
theorem Alone.feed_function (h : inner.Alone (token :: rest)) (hframes : inner.frames = [])
    {keyword : String} {span : Span} (hfunction : inner.expectation = .function keyword span)
    (hname : nameOf? token = none) (hok : (start.graft inner).feed token = .ok b) :
    ∃ inner', inner.feed token = .ok inner' ∧ b = start.graft inner' ∧ inner'.Alone rest := by
  have hfeed : ∀ b : Builder, b.expectation = .function keyword span → b.feed token =
      openAt { b.past token with anonymous := b.anonymous + 1 } token keyword
        (.params b.anonymousName true) span := by
    intro b hb
    rw [Builder.feed, hb]
    simp only [functionToken, hname]
    rfl
  rw [hfeed (start.graft inner) hfunction] at hok
  rw [hfeed inner hfunction]
  by_cases hparen : token.kind = .word "("
  · rw [openAt, if_pos hparen] at hok ⊢
    exact ⟨_, rfl, (Except.ok.inj hok).symm,
      h.framed rfl (List.cons_ne_nil _ _) (valued_cons hframes rfl)⟩
  · rw [openAt, if_neg hparen] at hok
    cases hok

/-- Behind the parameters of a function that is a value comes its body. -/
theorem Alone.feed_body (h : inner.Alone (token :: rest)) (hframes : inner.frames = [])
    {head : FunctionHead} {close : Span} (hbody : inner.expectation = .body head true close)
    (hok : (start.graft inner).feed token = .ok b) :
    ∃ inner', inner.feed token = .ok inner' ∧ b = start.graft inner' ∧ inner'.Alone rest := by
  have hfeed : ∀ b : Builder, b.expectation = .body head true close → b.feed token =
      (b.past token).bodyToken token head true := by
    intro b hb
    rw [Builder.feed, hb]
    rfl
  rw [hfeed (start.graft inner) hbody] at hok
  rw [hfeed inner hbody]
  by_cases hbrace : token.kind ≠ .word "\x7b"
  · rw [bodyToken, if_pos hbrace] at hok
    cases hok
  · rw [bodyToken, if_neg hbrace, if_pos rfl] at hok ⊢
    exact ⟨_, rfl, (Except.ok.inj hok).symm,
      h.framed rfl (List.cons_ne_nil _ _) (valued_cons hframes rfl)⟩

/-- A token of a call, or of a function that is a value, does not look at the group. -/
theorem Alone.feed_frame (h : inner.Alone (token :: rest)) (hframes : inner.frames ≠ [])
    (hok : (start.graft inner).feed token = .ok b) :
    ∃ inner', inner.feed token = .ok inner' ∧ b = start.graft inner' ∧ inner'.Alone rest := by
  obtain ⟨frame, frames, hframes⟩ := List.exists_cons_of_ne_nil hframes
  have hinner : inner = inner.atop {} inner.root (frame :: frames) := by
    rw [atop_empty, ← hframes]
    rfl
  have houter : start.graft inner = inner.atop start (start.level.graft inner.root)
      (frame :: frames) := by rw [graft, hframes]
  rw [houter] at hok
  have hvalued : Valued (frame :: frames) := hframes ▸ h.valued
  rcases feed_atop inner frame frames token with ⟨e, hfails⟩ | ⟨core, frames', hne, hkeeps, hstep⟩ |
    ⟨core, given, hends, hstep⟩
  · have he := hfails start (start.level.graft inner.root)
    rw [he] at hok
    cases hok
  · rw [hstep] at hok
    refine ⟨core.on inner.root frames', ?_, ?_, h.framed rfl hne (hkeeps hvalued)⟩
    · rw [hinner, hstep, atop_empty]
      rfl
    · exact (Except.ok.inj hok).symm
  · rw [hstep] at hok
    refine ⟨core.on (inner.root.give given) [], ?_, ?_, ?_⟩
    · rw [hinner, hstep, atop_empty]
      rfl
    · rw [← Except.ok.inj hok, graft]
      rcases hends hvalued with ⟨node, rfl, -⟩ | ⟨rfl, -⟩ <;> rfl
    · rcases hends hvalued with ⟨node, rfl, hnode, hany⟩ | ⟨rfl, head, close, hbody⟩
      · refine h.push (fun other heq => ?_) (by simp) hany
        obtain rfl : node = other := by simpa using heq
        exact Node.isStatement_of_isValue hnode
      · exact ⟨h.items, h.lines, h.parts, by simp [Valued, on], fun _ => Or.inr (Or.inr
          ⟨head, close, hbody⟩), h.operands, h.first, fun _ hkind => by simp [on, hbody] at hkind⟩

/-- One token of a group: what it does in the group it does alone. -/
theorem Alone.feed (h : inner.Alone (token :: rest)) (hstart : start.level.groups ≠ [])
    (hopen : inner.frames = [] → inner.root.groups = [] → token.kind ≠ .word ")")
    (hplain : inner.frames = [] → inner.startsStatement token = false) (hend : token.kind ≠ .eof)
    (hshallow : inner.frames = [] →
      (inner.root.groups ++ start.level.groups).length ≤ Source.depthLimit)
    (hok : (start.graft inner).feed token = .ok b) :
    ∃ inner', inner.feed token = .ok inner' ∧ b = start.graft inner' ∧ inner'.Alone rest := by
  by_cases hframes : inner.frames = []
  · have hplain := hplain hframes
    rcases h.expects hframes with hany | ⟨keyword, span, hfunction⟩ | ⟨head, close, hbody⟩
    · obtain ⟨act, hact, heq⟩ := exists_act inner.previous token
      have hinner : inner.feed token = act (inner.past token) := by
        rw [← heq, Builder.feed, hany]
        rfl
      have houter : (start.graft inner).feed token = act (start.graft (inner.past token)) := by
        rw [← heq, Builder.feed, show (start.graft inner).expectation = .any from hany]
        rfl
      rw [houter] at hok
      rw [hinner]
      rw [startsStatement, hany] at hplain
      exact h.act hframes hany hstart (hopen hframes) hplain hend (hshallow hframes) hact hok
    · exact h.feed_function hframes hfunction (by simpa [startsStatement, hfunction] using hplain) hok
    · exact h.feed_body hframes hbody hok
  · exact h.feed_frame hframes hok

/-- Nothing has been read in a group that has just been opened. -/
theorem graft_fresh (hany : start.expectation = .any)
    (hprevious : start.previous = .token (.word "(")) :
    start.graft { previous := .token (.word "("), anonymous := start.anonymous } = start := by
  rcases start with ⟨root, _ | ⟨frame, frames⟩, expectation, previous, anonymous⟩
  · obtain rfl : expectation = .any := hany
    obtain rfl : previous = .token (.word "(") := hprevious
    rfl
  · obtain rfl : expectation = .any := hany
    obtain rfl : previous = .token (.word "(") := hprevious
    rfl

/-! ## All the tokens of a group -/

/-- Whether the test holds of every token and the builder that reads it. -/
def along (test : Builder → Token → Bool) : Builder → List Token → Bool
  | _, [] => true
  | b, token :: rest => test b token &&
    match b.feed token with
    | .ok b' => along test b' rest
    | .error _ => true

/-- Whether a token that is read directly in the group that `start` has opened starts no statement,
and stands under so few groups that each of them counts. -/
def isPlain (start b : Builder) (token : Token) : Bool :=
  b.frames.length != start.frames.length ||
    !b.startsStatement token && decide (b.level.groups.length ≤ Source.depthLimit)

/-- Whether the parentheses of the tokens match, when so many are open before them. -/
def balanced : Nat → List Token → Bool
  | depth, [] => depth == 0
  | depth, token :: rest =>
    if token.kind = .word "(" then balanced (depth + 1) rest
    else if token.kind = .word ")" then depth != 0 && balanced (depth - 1) rest
    else balanced depth rest

theorem balanced_feed (h : b.feed token = .ok inner) (hbalanced : balanced b.parens (token :: rest)) :
    balanced inner.parens rest := by
  have hparens := parens_feed h
  rw [balanced] at hbalanced
  split at hbalanced
  · rename_i hopen
    simp only [hopen, TokenKind.word.injEq, String.reduceEq, if_false, if_true,
      Nat.add_zero] at hparens
    rwa [hparens]
  · rename_i hopen
    split at hbalanced
    · rename_i hclose
      simp only [hclose, TokenKind.word.injEq, String.reduceEq, if_false, if_true] at hparens
      simp only [Bool.and_eq_true] at hbalanced
      rw [show inner.parens = b.parens - 1 by omega]
      exact hbalanced.2
    · rename_i hclose
      simp only [if_neg hopen, if_neg hclose] at hparens
      rwa [show inner.parens = b.parens by omega]

theorem frames_graft : (start.graft inner).frames.length = inner.frames.length + start.frames.length := by
  rcases start with ⟨root, _ | ⟨frame, outer⟩, expectation, previous, anonymous⟩ <;>
    simp [graft, atop, setLevel, on]

/-- **What the tokens of a group do in the group they do alone.** -/
theorem Alone.run {tokens : List Token} (h : inner.Alone tokens) (hstart : start.level.groups ≠ [])
    (hbalanced : balanced inner.parens tokens) (hplain : along (isPlain start) (start.graft inner) tokens)
    (hend : ∀ token ∈ tokens, token.kind ≠ .eof)
    (hok : tokens.foldlM Builder.feed (start.graft inner) = .ok b) :
    ∃ inner', tokens.foldlM Builder.feed inner = .ok inner' ∧ b = start.graft inner' ∧
      inner'.Alone [] ∧ inner'.parens = 0 := by
  induction tokens generalizing inner with
  | nil =>
    refine ⟨inner, rfl, (Except.ok.inj hok).symm, h, ?_⟩
    simpa [balanced] using hbalanced
  | cons token rest ih =>
    rw [List.foldlM_cons] at hok
    obtain ⟨b', hfeed, hok⟩ := bind_eq_ok_iff.mp hok
    rw [along, hfeed, Bool.and_eq_true] at hplain
    obtain ⟨htoken, hplain⟩ := hplain
    have htoken : inner.frames = [] → inner.startsStatement token = false ∧
        (inner.root.groups ++ start.level.groups).length ≤ Source.depthLimit := by
      intro hframes
      rw [isPlain, frames_graft, hframes, level_graft hframes] at htoken
      simp only [List.length_nil, Nat.zero_add, bne_self_eq_false, Bool.false_or, Bool.and_eq_true,
        Bool.not_eq_true', decide_eq_true_eq] at htoken
      exact htoken
    have hopen : inner.frames = [] → inner.root.groups = [] → token.kind ≠ .word ")" := by
      intro hframes hgroups hkind
      have hparens : inner.parens = 0 := by simp [parens, stack, stackOf, Level.stack, hframes, hgroups]
      simp [balanced, hkind, hparens] at hbalanced
    obtain ⟨inner', hinner, rfl, halone⟩ := h.feed hstart hopen (fun hframes => (htoken hframes).1)
      (hend token List.mem_cons_self) (fun hframes => (htoken hframes).2) hfeed
    obtain ⟨last, hlast, hb, hrest⟩ := ih halone (balanced_feed hinner hbalanced) hplain
      (fun token hmem => hend token (List.mem_cons_of_mem _ hmem)) hok
    refine ⟨last, ?_, hb, hrest⟩
    rw [List.foldlM_cons, hinner]
    exact hlast

/-- The `)` that closes the group finds nothing open in it, and the run of an expression that is not
empty. -/
theorem Alone.close (h : inner.Alone []) (hparens : inner.parens = 0) {opening span : Span}
    {groups : List Span} (hstart : start.level.groups = opening :: groups)
    (hok : (start.graft inner).feed ⟨.word ")", span⟩ = .ok b) :
    inner.frames = [] ∧ inner.expectation = .any ∧ inner.root.groups = [] ∧ inner.root.run ≠ [] ∧
      b = (inner.past ⟨.word ")", span⟩).atop start
        { start.level with
          run := (start.level.graft inner.root).run
          groups := groups } [] := by
  have hgroups : inner.root.groups = [] := root_groups_of_parens hparens
  have hframes : inner.frames = [] := by
    cases hframes : inner.frames with
    | nil => rfl
    | cons frame frames =>
      -- A frame would have to be closed by the token, but it is not one of the parentheses.
      have hinner : inner = inner.atop {} inner.root (frame :: frames) := by
        rw [atop_empty, ← hframes]
        rfl
      have hfeed : ∃ b', inner.feed ⟨.word ")", span⟩ = .ok b' := by
        rw [graft, hframes] at hok
        rw [hinner]
        rcases feed_atop inner frame frames ⟨.word ")", span⟩ with
          ⟨e, hfails⟩ | ⟨core, frames', -, -, hstep⟩ | ⟨core, given, -, hstep⟩
        · have he := hfails start (start.level.graft inner.root)
          rw [he] at hok
          cases hok
        · exact ⟨_, hstep {} inner.root⟩
        · exact ⟨_, hstep {} inner.root⟩
      obtain ⟨b', hb'⟩ := hfeed
      have := parens_feed hb'
      simp [hparens] at this
  refine ⟨hframes, ?_⟩
  rcases h.expects hframes with hany | ⟨keyword, place, hfunction⟩ | ⟨head, close, hbody⟩
  · refine ⟨hany, hgroups, ?_, ?_⟩
    · intro hrun
      cases (h.fresh hframes hany hrun).2
    · have hfeed : (start.graft inner).feed ⟨.word ")", span⟩ =
          (start.graft (inner.past ⟨.word ")", span⟩)).closeParen span := by
        rw [Builder.feed, show (start.graft inner).expectation = .any from hany]
        rfl
      have hopen : (start.graft (inner.past ⟨.word ")", span⟩)).level.groups =
          opening :: groups := by
        rw [level_graft (by exact hframes)]
        simp [Level.graft, past, hgroups, hstart]
      rw [hfeed, closeParen_group hopen, graft_of_frames (by exact hframes), atop_nil_mapLevel] at hok
      exact (Except.ok.inj hok).symm
  · rw [Builder.feed, show (start.graft inner).expectation = .function keyword place from hfunction]
      at hok
    cases hok
  · rw [Builder.feed, show (start.graft inner).expectation = .body head true close from hbody] at hok
    cases hok

end Builder

end SlotScript
