import SlotScript.Proofs.Tree.Fed
import SlotScript.Proofs.Tree.Reading

/-!
# No word is lost, doubled or moved

**Theorem (`ofTokens_reading`).** The program that a list of tokens makes reads off as the
significant words of those tokens.

The invariant is the `total` of a builder: the words that its levels have collected, those that
its expectation stands for, and those that the tokens to come are going to leave. A step moves
the words of its token from the last to the first and changes nothing else (`feed_total`). What
the tokens to come leave depends on the expectation in one case: after a declared name the next
token decides whether a value is missing.

Items stand behind one another and before the run of their level, so they may be added only where
no expression is being read. `Clear` says that this is so in every level that waits for one.
-/

namespace SlotScript

/-! ## Words that were read and words to come -/

/-- The tokens that are still to come, completed as far as the expectation says what they mean. -/
def Expectation.completed (expectation : Expectation) (kinds : List TokenKind) : List TokenKind :=
  match expectation with
  | .target .const _ | .initializer .const _ _ => SlotScript.completed kinds
  | .target _ _ => completedName kinds
  | .initializer _ _ _ =>
    if kinds.head? = some (.word "=") then SlotScript.completed kinds
    else .word "=" :: .word "null" :: SlotScript.completed kinds
  | _ => SlotScript.completed kinds

/-- Whether the level around a frame has ended its expression, so that items can be added. -/
def Opener.waits : Opener → Bool
  | .block none | .header _ | .params _ false => true
  | _ => false

/-- Whether the innermost level has ended its expression. -/
def Expectation.waits : Expectation → Bool
  | .header .. | .params .. | .body _ false _ | .target .. | .initializer .. | .otherwise => true
  | .any | .function .. | .body _ true _ => false

namespace Builder

variable {b b' : Builder}

/-- The words that were read and those that are still to come. -/
def total (b : Builder) (kinds : List TokenKind) : List TokenKind :=
  b.collected ++ b.expectation.reading ++
    (b.expectation.completed kinds).flatMap TokenKind.reading

/-- The words outside the innermost level. -/
def outside (b : Builder) : List TokenKind :=
  match b.frames with
  | [] => []
  | frame :: outer =>
    b.root.reading ++ outer.reverse.flatMap Frame.reading ++ frame.opener.reading

theorem collected_eq_outside (b : Builder) : b.collected = b.outside ++ b.level.reading := by
  rcases b with ⟨root, _ | ⟨frame, outer⟩, expectation, previous, anonymous⟩
  · simp [collected, outside, level]
  · simp [collected, outside, level, Frame.reading]

theorem collected_setLevel (b : Builder) (level : Level) :
    (b.setLevel level).collected = b.outside ++ level.reading := by
  rcases b with ⟨root, _ | ⟨frame, outer⟩, expectation, previous, anonymous⟩
  · simp [setLevel, collected, outside]
  · simp [setLevel, collected, outside, Frame.reading]

theorem collected_mapLevel {f : Level → Level} {words : List TokenKind}
    (h : (f b.level).reading = b.level.reading ++ words) :
    (b.mapLevel f).collected = b.collected ++ words := by
  rw [mapLevel, collected_setLevel, h, collected_eq_outside, List.append_assoc]

theorem collected_setLevel_eq {level : Level} (h : level.reading = b.level.reading) :
    (b.setLevel level).collected = b.collected := by
  rw [collected_setLevel, h, collected_eq_outside]

theorem collected_push (b : Builder) (opener : Opener) (span : Span) :
    (b.push opener span).collected = b.collected ++ opener.reading := by
  simp [push, collected, Frame.reading, Level.reading, readingAll]

@[simp] theorem collected_expect (b : Builder) (expectation : Expectation) :
    (b.expect expectation).collected = b.collected := rfl

theorem collected_operand (b : Builder) (node : Node) :
    (b.operand node).collected = b.collected ++ node.reading :=
  collected_mapLevel (by simp [Level.operand, Level.reading, RunItem.reading])

theorem collected_operator (b : Builder) (op : Operator) (base : Nat) (span : Span) :
    (b.operator op base span).collected = b.collected ++ op.reading :=
  collected_mapLevel (by simp [Level.operator, Level.reading, RunItem.reading])

/-- An item goes behind the words of a level that reads no expression. -/
theorem collected_item (item : Item) (hrun : b.level.run = []) :
    (b.mapLevel (·.item item)).collected = b.collected ++ item.reading :=
  collected_mapLevel (by simp [Level.item, Level.reading, hrun])

/-! ## Levels that wait -/

/-- The innermost level, if these are the open frames. -/
def levelOf (root : Level) : List Frame → Level
  | [] => root
  | frame :: _ => frame.level

/-- Every level around a frame that waits has ended its expression, and blocks have no parts. -/
def framesClear (root : Level) : List Frame → Prop
  | [] => root.parts = []
  | frame :: outer =>
    (frame.opener.isBlock = true → frame.level.parts = []) ∧
      (frame.opener.waits = true → (levelOf root outer).run = []) ∧ framesClear root outer

/-- Items are added only where no expression is being read. -/
def Clear (b : Builder) : Prop :=
  (b.expectation.waits = true → b.level.run = []) ∧ framesClear b.root b.frames

/-- The builder has read these words more, and the next token starts no declared name. -/
structure Reads (b b' : Builder) (words : List TokenKind) : Prop where
  /-- The words are added at the end. -/
  words : b'.collected ++ b'.expectation.reading = b.collected ++ words
  /-- The tokens to come have the meaning that they have on their own. -/
  plain : ∀ kinds, b'.expectation.completed kinds = completed kinds
  /-- Items can be added where they are going to be. -/
  clear : b'.Clear

theorem framesClear_setLevel {level : Level} (h : framesClear b.root b.frames)
    (hparts : b.inBlock = true → level.parts = b.level.parts) :
    framesClear (b.setLevel level).root (b.setLevel level).frames := by
  rcases b with ⟨root, _ | ⟨frame, outer⟩, expectation, previous, anonymous⟩
  · exact (hparts rfl).trans h
  · exact ⟨fun hblock => (hparts (by simpa [inBlock, opener?] using hblock)).trans (h.1 hblock), h.2⟩

theorem framesClear_push (h : framesClear b.root b.frames) {opener : Opener} {span : Span}
    (hrun : opener.waits = true → b.level.run = []) :
    framesClear (b.push opener span).root (b.push opener span).frames := by
  rcases b with ⟨root, _ | ⟨frame, outer⟩, expectation, previous, anonymous⟩
  · exact ⟨fun _ => rfl, hrun, h⟩
  · exact ⟨fun _ => rfl, hrun, h⟩

/-! ## Delimiters, separators and statements -/

theorem Reads.of_any {words : List TokenKind} (he : b'.expectation = .any)
    (hwords : b'.collected = b.collected ++ words) (hclear : framesClear b'.root b'.frames) :
    Reads b b' words where
  words := by simp [he, hwords, Expectation.reading]
  plain := by simp [he, Expectation.completed]
  clear := ⟨by simp [he, Expectation.waits], hclear⟩

theorem reads_operand (he : b.expectation = .any) (hb : framesClear b.root b.frames)
    (node : Node) : Reads b (b.operand node) node.reading :=
  .of_any (by simp [operand, he]) (b.collected_operand node) (framesClear_setLevel hb fun _ => rfl)

theorem reads_operator (he : b.expectation = .any) (hb : framesClear b.root b.frames)
    (op : Operator) (base : Nat) (span : Span) : Reads b (b.operator op base span) op.reading :=
  .of_any (by simp [operator, he]) (b.collected_operator op base span)
    (framesClear_setLevel hb fun _ => rfl)

theorem reads_tryLevel (he : b.expectation = .any) (hb : framesClear b.root b.frames)
    {f : Level → Except BuildError Level}
    (hf : ∀ {level after}, f level = .ok after → after.reading = level.reading)
    (hparts : ∀ {level after}, f level = .ok after → b.inBlock = true → after.parts = level.parts)
    (h : b.tryLevel f = .ok b') : Reads b b' [] := by
  obtain ⟨level, hlevel, rfl⟩ := tryLevel_eq_ok h
  exact .of_any (by simp [he]) (by simp [collected_setLevel_eq (hf hlevel)])
    (framesClear_setLevel hb (hparts hlevel))

theorem reads_openParen (he : b.expectation = .any) (hb : framesClear b.root b.frames)
    (previous : Previous) (span : Span) : Reads b (b.openParen previous span) [] := by
  have hgroup : Reads b (b.mapLevel fun level => { level with groups := span :: level.groups })
      [] :=
    .of_any (by simp [he]) (collected_mapLevel (by simp [Level.reading]))
      (framesClear_setLevel hb fun _ => rfl)
  unfold openParen
  split
  · rename_i callee rest hrun _
    refine .of_any ?_ ?_ (framesClear_push ?_ ?_)
    · simp [push, he]
    · rw [collected_push, mapLevel, collected_setLevel, collected_eq_outside]
      simp [Level.reading, hrun, RunItem.reading, Opener.reading]
    · exact framesClear_setLevel hb fun _ => rfl
    · simp [Opener.waits]
  · exact hgroup

theorem reads_finishCall (he : b.expectation = .any) (hb : framesClear b.root b.frames)
    {callee : Node} {opening close : Span} {level : Level}
    (h : b.finishCall callee opening close level = .ok b') :
    Reads b b' (callee.reading ++ level.reading) := by
  obtain ⟨closed, hclosed, h⟩ := bind_eq_ok_iff.mp h
  obtain ⟨args, hargs, h⟩ := bind_eq_ok_iff.mp h
  obtain rfl := pure_eq_ok_iff.mp h
  have hwords := (Level.listParts_reading hargs).trans (Level.closePart_parts hclosed)
  refine .of_any ?_ ?_ (framesClear_setLevel hb fun _ => rfl)
  · exact (b.expectation_mapLevel _).trans he
  · have := b.collected_operand (.call callee args (opening.merge close))
    rwa [Node.reading, hwords] at this

theorem headerItem_reading {construct : Construct} {span close : Span}
    {parts : List (Option Node)} {item : Item}
    (h : headerItem construct span close parts = .ok item) :
    item.reading = .word construct.keyword :: parts.flatMap readingOption := by
  unfold headerItem at h
  split at h <;> cases h <;> simp [Item.reading, Construct.keyword, readingOption]

theorem reads_finishHeader (he : b.expectation = .any) (hb : framesClear b.root b.frames)
    (hrun : b.level.run = []) {construct : Construct} {span close : Span} {level : Level}
    (h : b.finishHeader construct span close level = .ok b') :
    Reads b b' (.word construct.keyword :: level.reading) := by
  obtain ⟨closed, hclosed, h⟩ := bind_eq_ok_iff.mp h
  obtain ⟨item, hitem, h⟩ := bind_eq_ok_iff.mp h
  obtain rfl := pure_eq_ok_iff.mp h
  refine .of_any ?_ ?_ (framesClear_setLevel hb fun _ => rfl)
  · exact (b.expectation_mapLevel _).trans he
  · have := collected_item item hrun
    rwa [headerItem_reading hitem, Level.closePart_parts hclosed] at this

theorem paramOf_reading {node : Node} {param : Param} (h : paramOf node = .ok param) :
    param.reading = node.reading := by
  unfold paramOf at h
  split at h
  · cases h
    simp [Param.reading, readingDefault, Node.reading]
  · cases h
    simp [Param.reading, readingDefault, Node.reading, assignReading, DeclKind.reading, assignSign]
  · cases h

theorem mapM_paramOf_reading {nodes : List Node} {params : List Param}
    (h : nodes.mapM paramOf = .ok params) : readingParams params = readingAll nodes := by
  induction nodes generalizing params with
  | nil =>
    cases h
    simp [readingParams, readingAll]
  | cons node rest ih =>
    rw [List.mapM_cons] at h
    obtain ⟨param, hparam, h⟩ := bind_eq_ok_iff.mp h
    obtain ⟨others, hothers, h⟩ := bind_eq_ok_iff.mp h
    obtain rfl := pure_eq_ok_iff.mp h
    rw [readingParams, readingAll, paramOf_reading hparam, ih hothers]

theorem reads_finishParams (hb : framesClear b.root b.frames) {name : String} {anonymous : Bool}
    (hrun : anonymous = false → b.level.run = []) {span close : Span} {level : Level}
    (h : b.finishParams name anonymous span close level = .ok b') :
    Reads b b' (functionReading name anonymous ++ level.reading) := by
  obtain ⟨closed, hclosed, h⟩ := bind_eq_ok_iff.mp h
  obtain ⟨parts, hparts, h⟩ := bind_eq_ok_iff.mp h
  obtain ⟨params, hparams, h⟩ := bind_eq_ok_iff.mp h
  obtain rfl := pure_eq_ok_iff.mp h
  have hwords := (Level.listParts_reading hparts).trans (Level.closePart_parts hclosed)
  refine ⟨?_, fun _ => rfl, ?_, hb⟩
  · show b.collected ++ (functionReading name anonymous ++ readingParams params) = _
    rw [mapM_paramOf_reading hparams, hwords]
  · cases anonymous with
    | true => intro hwaits; cases hwaits
    | false => exact fun _ => hrun rfl

theorem reads_finishBlock (he : b.expectation = .any) (hb : framesClear b.root b.frames)
    {head : Option FunctionHead} (hrun : head = none → b.level.run = []) {opening close : Span}
    {level : Level} (hparts : level.parts = [])
    (h : b.finishBlock head opening close level = .ok b') :
    Reads b b' ((Opener.block head).reading ++ level.reading ++ [.word "\x7d"]) := by
  obtain ⟨closed, hclosed, h⟩ := bind_eq_ok_iff.mp h
  have hlines : readingAll closed.lines.reverse = level.reading := by
    simpa [Level.closeLine_parts hclosed, hparts] using Level.closeLine_lines hclosed
  cases head with
  | none =>
    obtain rfl := pure_eq_ok_iff.mp h
    refine ⟨?_, fun _ => rfl, fun _ => ?_, framesClear_setLevel hb fun _ => rfl⟩
    · rw [collected_expect, expectation_expect,
        collected_item (.node (.block closed.lines.reverse (opening.merge close))) (hrun rfl)]
      simp [Item.reading, Node.reading, hlines, Opener.reading, Expectation.reading]
    · rw [level_expect, mapLevel, level_setLevel]
      exact hrun rfl
  | some head =>
    obtain ⟨node, hnode, h⟩ := bind_eq_ok_iff.mp h
    obtain rfl := pure_eq_ok_iff.mp h
    have hwords : node.reading =
        (Opener.block (some head)).reading ++ level.reading ++ [.word "\x7d"] := by
      simp [FunctionHead.complete_reading hnode, Node.reading, hlines, Opener.reading]
    exact hwords ▸ reads_operand he hb node

theorem Reads.of_frame {frame : Frame} {outer : List Frame} (hf : b.frames = frame :: outer)
    {words : List TokenKind}
    (h : Reads { b with frames := outer } b' (frame.reading ++ words)) : Reads b b' words where
  words := by
    rw [h.words]
    simp [collected, hf]
  plain := h.plain
  clear := h.clear

theorem reads_closeParen (he : b.expectation = .any) (hb : framesClear b.root b.frames)
    {span : Span} (h : b.closeParen span = .ok b') : Reads b b' [] := by
  rcases closeParen_eq_ok h with
    ⟨opening, groups, -, rfl⟩ | ⟨opener, place, level, outer, -, hframes, h⟩
  · exact .of_any (by simp [he]) (collected_mapLevel (by simp [Level.reading]))
      (framesClear_setLevel hb fun _ => rfl)
  · rw [hframes] at hb
    obtain ⟨-, hwaits, hb⟩ := hb
    refine .of_frame hframes ?_
    rw [List.append_nil, Frame.reading]
    rcases h with ⟨callee, rfl, h⟩ | ⟨construct, rfl, h⟩ | ⟨name, anonymous, rfl, h⟩
    · exact reads_finishCall (b := { b with frames := outer }) he hb h
    · exact reads_finishHeader (b := { b with frames := outer }) he hb (hwaits rfl) h
    · refine reads_finishParams hb ?_ h
      rintro rfl
      exact hwaits rfl

theorem reads_openBrace (he : b.expectation = .any) (hb : framesClear b.root b.frames)
    {span : Span} (h : b.openBrace span = .ok b') : Reads b b' [.word "\x7b"] := by
  obtain ⟨level, hlevel, rfl⟩ := openBrace_eq_ok h
  refine .of_any (by simp [push, he]) ?_ (framesClear_push (framesClear_setLevel hb fun _ => ?_) ?_)
  · rw [collected_push, collected_setLevel_eq (Level.closeExpression_reading hlevel)]
    rfl
  · exact Level.closeExpression_parts hlevel
  · rw [level_setLevel]
    exact fun _ => Level.closeExpression_run hlevel

theorem reads_closeBrace (he : b.expectation = .any) (hb : framesClear b.root b.frames)
    {span : Span} (h : b.closeBrace span = .ok b') : Reads b b' [.word "\x7d"] := by
  obtain ⟨head, place, level, outer, -, hframes, h⟩ := closeBrace_eq_ok h
  rw [hframes] at hb
  obtain ⟨hparts, hwaits, hb⟩ := hb
  refine .of_frame hframes ?_
  rw [Frame.reading]
  refine reads_finishBlock (b := { b with frames := outer }) he hb ?_ (hparts rfl) h
  rintro rfl
  exact hwaits rfl

theorem reads_semicolon (he : b.expectation = .any) (hb : framesClear b.root b.frames)
    {span : Span} (h : b.semicolon span = .ok b') : Reads b b' [] := by
  obtain ⟨-, ⟨h, -⟩ | ⟨h, hblock⟩⟩ := semicolon_eq_ok h
  · exact reads_tryLevel he hb Level.closeLine_reading (fun h _ => Level.closeLine_parts h) h
  · exact reads_tryLevel he hb Level.closePart_reading (by simp [hblock]) h

theorem reads_comma (he : b.expectation = .any) (hb : framesClear b.root b.frames)
    {span : Span} (h : b.comma span = .ok b') : Reads b b' [] := by
  obtain ⟨-, hblock, h⟩ := comma_eq_ok h
  exact reads_tryLevel he hb Level.closePart_reading (by simp [hblock]) h

theorem reads_equals (he : b.expectation = .any) (hb : framesClear b.root b.frames)
    {span : Span} (h : b.equals span = .ok b') : Reads b b' [.word "="] := by
  obtain ⟨name, place, target, -, hrun, rfl⟩ := equals_eq_ok h
  refine .of_any (by simp [he]) (collected_mapLevel ?_) (framesClear_setLevel hb fun _ => rfl)
  simp [Level.reading, Level.item, hrun, Item.reading, RunItem.reading, Node.reading,
    assignReading, DeclKind.reading, assignSign]

theorem reads_otherwise (he : b.expectation = .any) (hb : framesClear b.root b.frames)
    {span : Span} (h : b.otherwise span = .ok b') : Reads b b' [.word "else"] := by
  obtain ⟨level, node, items, hlevel, -, rfl⟩ := otherwise_eq_ok h
  have hclear := framesClear_setLevel hb fun _ => Level.closeExpression_parts hlevel
  refine .of_any (by simp [he]) ?_ (framesClear_setLevel hclear fun _ => rfl)
  rw [collected_item, collected_setLevel_eq (Level.closeExpression_reading hlevel)]
  · rfl
  · rw [level_setLevel]
    exact Level.closeExpression_run hlevel

/-- Before a keyword the expression ends, and the keyword is kept in the expectation. -/
theorem start_collected (hb : framesClear b.root b.frames) {level : Level}
    (hlevel : b.level.closeExpression = .ok level) (expectation : Expectation) :
    ((b.setLevel level).expect expectation).Clear ∧
      ((b.setLevel level).expect expectation).collected = b.collected := by
  refine ⟨⟨fun _ => ?_, ?_⟩, collected_setLevel_eq (Level.closeExpression_reading hlevel)⟩
  · rw [level_expect, level_setLevel]
    exact Level.closeExpression_run hlevel
  · exact framesClear_setLevel hb fun _ => Level.closeExpression_parts hlevel

/-- The keyword of a construct waits for the parts of its header. -/
theorem reads_construct (hb : framesClear b.root b.frames) {construct : Construct} {span : Span}
    (h : b.start (.header construct span) = .ok b') : Reads b b' [.word construct.keyword] := by
  obtain ⟨level, hlevel, rfl⟩ := start_eq_ok h
  obtain ⟨hclear, hwords⟩ := start_collected hb hlevel (.header construct span)
  refine ⟨?_, fun _ => rfl, hclear⟩
  rw [hwords]
  rfl

/-- The keyword of a function waits for its name or its parameters. -/
theorem reads_function (hb : framesClear b.root b.frames) (keyword : String) (span : Span) :
    Reads b (b.expect (.function keyword span)) [.word "def"] := by
  refine ⟨rfl, fun _ => rfl, ?_, hb⟩
  intro hwaits
  cases hwaits

/-! ## Tokens -/

theorem wordReading_of_lookup {text : String} (h : Role.fixed.lookup text = none) :
    wordReading text = [.word text] ∧ text ≠ "var" ∧ text ≠ "let" := by
  have hne : ∀ entry ∈ Role.fixed, text ≠ entry.1 := by simpa using List.lookup_eq_none_iff.mp h
  simp only [Role.fixed, List.forall_mem_cons] at hne
  simp [wordReading, hne]

/-- A word that starts no declaration adds what it reads as, behind the words that it completes. -/
theorem Reads.total_word {words : List TokenKind} {text : String}
    (h : Reads b b' (words ++ wordReading text)) (htext : text ≠ "var" ∧ text ≠ "let") :
    b'.Clear ∧ ∀ rest, b'.total rest =
      b.collected ++ words ++ (completed (.word text :: rest)).flatMap TokenKind.reading := by
  refine ⟨h.clear, fun rest => ?_⟩
  have hcompleted : completed (.word text :: rest) = .word text :: completed rest := by
    rw [completed, if_neg (by simpa using htext)]
  rw [total, h.words, h.plain, hcompleted]
  simp [TokenKind.reading]

/-- The keyword of a declaration waits for its name, and says which words complete it. -/
theorem declare_total (hb : framesClear b.root b.frames) {decl : DeclKind} {text : String} {span : Span}
    (htext : decl = .var ∧ (text = "var" ∨ text = "let") ∨ decl = .const ∧ text = "const")
    (h : b.start (.target decl span) = .ok b') :
    b'.Clear ∧ ∀ rest,
      b'.total rest = b.collected ++ (completed (.word text :: rest)).flatMap TokenKind.reading := by
  obtain ⟨level, hlevel, rfl⟩ := start_eq_ok h
  obtain ⟨hclear, hwords⟩ := start_collected hb hlevel (.target decl span)
  refine ⟨hclear, fun rest => ?_⟩
  rw [total, hwords, expectation_expect]
  rcases htext with ⟨rfl, hvar⟩ | ⟨rfl, rfl⟩
  · have hreading : TokenKind.reading (.word text) = [.word "var"] := by
      rcases hvar with rfl | rfl <;> decide
    rw [completed, if_pos (by simpa using hvar), List.flatMap_cons, hreading]
    simp [Expectation.reading, Expectation.completed, DeclKind.reading]
  · rw [completed, if_neg (by decide), List.flatMap_cons]
    simp [Expectation.reading, Expectation.completed, DeclKind.reading, TokenKind.reading,
      wordReading]

theorem word_total (he : b.expectation = .any) (hb : framesClear b.root b.frames)
    {previous : Previous} {text : String} {span : Span}
    (h : b.word previous text span = .ok b') :
    b'.Clear ∧ ∀ rest,
      b'.total rest = b.collected ++ (completed (.word text :: rest)).flatMap TokenKind.reading := by
  have hreads : ∀ {b'}, text ≠ "var" ∧ text ≠ "let" → Reads b b' (wordReading text) → _ :=
    fun htext h => by simpa using Reads.total_word (show Reads b _ ([] ++ wordReading text) from h) htext
  have hspelled := Role.spelled_ofWord text
  unfold word at h
  generalize Role.ofWord text = role at h hspelled
  cases role with
  | openParen =>
    obtain rfl : text = "(" := by simpa [Role.fixed, Role.Spelled] using hspelled
    cases h
    exact hreads (by decide) (reads_openParen he hb previous span)
  | closeParen =>
    obtain rfl : text = ")" := by simpa [Role.fixed, Role.Spelled] using hspelled
    exact hreads (by decide) (reads_closeParen he hb h)
  | openBrace =>
    obtain rfl : text = "\x7b" := by simpa [Role.fixed, Role.Spelled] using hspelled
    exact hreads (by decide) (reads_openBrace he hb h)
  | closeBrace =>
    obtain rfl : text = "\x7d" := by simpa [Role.fixed, Role.Spelled] using hspelled
    exact hreads (by decide) (reads_closeBrace he hb h)
  | comma =>
    obtain rfl : text = "," := by simpa [Role.fixed, Role.Spelled] using hspelled
    exact hreads (by decide) (reads_comma he hb h)
  | equals =>
    obtain rfl : text = "=" := by simpa [Role.fixed, Role.Spelled] using hspelled
    exact hreads (by decide) (reads_equals he hb h)
  | construct construct =>
    have htext : text = construct.keyword := by
      cases construct <;> simpa [Role.fixed, Role.Spelled, Construct.keyword] using hspelled
    have hreading : wordReading construct.keyword = [.word construct.keyword] := by
      cases construct <;> rfl
    subst htext
    exact hreads (by cases construct <;> decide) (hreading ▸ reads_construct hb h)
  | otherwise =>
    obtain rfl : text = "else" := by simpa [Role.fixed, Role.Spelled] using hspelled
    exact hreads (by decide) (reads_otherwise he hb h)
  | function =>
    have hreading : wordReading text = [.word "def"] ∧ text ≠ "var" ∧ text ≠ "let" := by
      rcases hspelled with hmem | ⟨-, hfalse⟩
      · obtain rfl | rfl : text = "def" ∨ text = "function" := by simpa [Role.fixed] using hmem
        · decide
        · decide
      · cases hfalse
    cases h
    exact hreads hreading.2 (hreading.1 ▸ reads_function hb text span)
  | declare decl =>
    refine declare_total hb ?_ h
    cases decl with
    | plain => simp [Role.fixed, Role.Spelled] at hspelled
    | _ => simpa [Role.fixed, Role.Spelled] using hspelled
  | ret =>
    obtain rfl : text = "return" := by simpa [Role.fixed, Role.Spelled] using hspelled
    cases h
    exact hreads (by decide) (reads_operator he hb .ret _ span)
  | breakLoop =>
    obtain rfl : text = "break" := by simpa [Role.fixed, Role.Spelled] using hspelled
    cases h
    exact hreads (by decide) (reads_operand he hb (.breakLoop span))
  | continueLoop =>
    obtain rfl : text = "continue" := by simpa [Role.fixed, Role.Spelled] using hspelled
    cases h
    exact hreads (by decide) (reads_operand he hb (.continueLoop span))
  | bool value =>
    cases h
    have hread := reads_operand he hb (.bool value span)
    cases value with
    | true =>
      obtain rfl : text = "true" := by simpa [Role.fixed, Role.Spelled] using hspelled
      exact hreads (by decide) hread
    | false =>
      obtain rfl : text = "false" := by simpa [Role.fixed, Role.Spelled] using hspelled
      exact hreads (by decide) hread
  | null =>
    obtain rfl : text = "null" := by simpa [Role.fixed, Role.Spelled] using hspelled
    cases h
    exact hreads (by decide) (reads_operand he hb (.null span))
  | unsupported => cases h
  | minus =>
    obtain rfl : text = "-" := by simpa [Role.fixed, Role.Spelled] using hspelled
    dsimp only at h
    split at h
    · cases h
      exact hreads (by decide) (reads_operator he hb (.binary .sub) _ span)
    · cases h
      exact hreads (by decide) (reads_operator he hb (.unary .neg) _ span)
  | unary op =>
    obtain ⟨hlookup, rfl⟩ := hspelled.resolve_left (by simp [Role.fixed])
    obtain ⟨hreading, htext⟩ := wordReading_of_lookup hlookup
    cases h
    exact hreads htext (hreading ▸ reads_operator he hb (.unary op) _ span)
  | binary op =>
    obtain ⟨hlookup, rfl⟩ := hspelled.resolve_left (by simp [Role.fixed])
    obtain ⟨hreading, htext⟩ := wordReading_of_lookup hlookup
    cases h
    exact hreads htext (hreading ▸ reads_operator he hb (.binary op) _ span)
  | compound op =>
    obtain ⟨hlookup, rfl⟩ := hspelled.resolve_left (by simp [Role.fixed])
    obtain ⟨hreading, htext⟩ := wordReading_of_lookup hlookup
    cases h
    exact hreads htext (hreading ▸ reads_operator he hb (.compound op) _ span)
  | name =>
    obtain ⟨hlookup, -⟩ := hspelled.resolve_left (by simp [Role.fixed])
    obtain ⟨hreading, htext⟩ := wordReading_of_lookup hlookup
    cases h
    exact hreads htext (hreading ▸ reads_operand he hb (.ident text .unresolved span))
  | unknown => cases h

theorem handle_total (he : b.expectation = .any) (hb : framesClear b.root b.frames)
    {previous : Previous} {token : Token} (heof : token.kind ≠ .eof)
    (h : b.handle previous token = .ok b') :
    b'.Clear ∧ ∀ rest,
      b'.total rest = b.collected ++ (completed (token.kind :: rest)).flatMap TokenKind.reading := by
  -- A token that is no word adds itself, and a separator nothing.
  have hreads : ∀ {b'}, (∀ text, token.kind ≠ .word text) → Reads b b' token.kind.reading →
      b'.Clear ∧ ∀ rest,
        b'.total rest = b.collected ++ (completed (token.kind :: rest)).flatMap TokenKind.reading := by
    intro b' hword h
    refine ⟨h.clear, fun rest => ?_⟩
    rw [total, h.words, h.plain, completed, if_neg (by simp [hword]), List.flatMap_cons,
      List.append_assoc]
  obtain ⟨kind, span⟩ := token
  cases kind with
  | word text => exact word_total he hb h
  | int value =>
    cases h
    exact hreads (by simp) (reads_operand he hb (.int value span))
  | float bits =>
    cases h
    exact hreads (by simp) (reads_operand he hb (.float bits span))
  | literal text =>
    cases h
    exact hreads (by simp) (reads_operand he hb (.str text span))
  | separator => exact hreads (by simp) (reads_semicolon he hb h)
  | eof => exact absurd rfl heof

/-! ## Tokens that are waited for -/

/-- A name that a keyword asks for is read as itself. -/
theorem completed_name {name : String} (h : isIdentifier name = true) (rest : List TokenKind) :
    completed (.word name :: rest) = .word name :: completed rest ∧
      TokenKind.reading (.word name) = [.word name] := by
  obtain ⟨hreading, htext⟩ := wordReading_of_lookup (Role.lookup_of_isIdentifier h)
  rw [completed, if_neg (by simpa using htext)]
  exact ⟨rfl, hreading⟩

theorem reads_push (he : b.expectation = .any) (hb : framesClear b.root b.frames) {opener : Opener}
    (hrun : opener.waits = true → b.level.run = []) (span : Span) :
    Reads b (b.push opener span) opener.reading :=
  .of_any he (b.collected_push opener span) (framesClear_push hb hrun)

theorem reads_item (he : b.expectation = .any) (hb : framesClear b.root b.frames)
    (hrun : b.level.run = []) (item : Item) : Reads b (b.mapLevel (·.item item)) item.reading :=
  .of_any (by simp [he]) (collected_item _ hrun) (framesClear_setLevel hb fun _ => rfl)

/-- The body of a named function: the function waits as an item around it. -/
theorem reads_body (he : b.expectation = .any) (hb : framesClear b.root b.frames)
    (hrun : b.level.run = []) (head : FunctionHead) (span : Span) :
    Reads b ((b.mapLevel (·.item (.define head))).push (.block none) span)
      (head.reading false ++ [.word "\x7b"]) := by
  refine .of_any (by simp [push, he]) ?_ (framesClear_push ?_ fun _ => ?_)
  · rw [collected_push, collected_item _ hrun]
    simp [Item.reading, Opener.reading]
  · exact framesClear_setLevel hb fun _ => rfl
  · rw [mapLevel, level_setLevel]
    exact hrun

/-- The name of a function is read before its parameters. -/
theorem name_total (hb : framesClear b.root b.frames) {level : Level}
    (hlevel : b.level.closeExpression = .ok level) {name : String} (hname : isIdentifier name = true)
    (keyword : String) (span : Span) :
    ((b.setLevel level).expect (.params name keyword span)).Clear ∧ ∀ rest,
      ((b.setLevel level).expect (.params name keyword span)).total rest =
        b.collected ++ [.word "def"] ++ (completed (.word name :: rest)).flatMap TokenKind.reading := by
  obtain ⟨hclear, hwords⟩ := start_collected hb hlevel (.params name keyword span)
  refine ⟨hclear, fun rest => ?_⟩
  obtain ⟨hcompleted, hreading⟩ := completed_name hname rest
  rw [total, hwords, expectation_expect, hcompleted, List.flatMap_cons, hreading]
  simp [Expectation.reading, Expectation.completed, functionReading]

/-- The name of a declaration decides with what follows it whether the value is left out. -/
theorem target_total (hb : framesClear b.root b.frames) (hrun : b.level.run = []) {decl : DeclKind}
    {name : String} (hname : isIdentifier name = true) (span span' : Span) :
    (b.expect (.initializer decl name span)).Clear ∧ ∀ rest,
      (b.expect (.initializer decl name span)).total rest = b.collected ++ decl.reading ++
        ((Expectation.target decl span').completed (.word name :: rest)).flatMap
          TokenKind.reading := by
  refine ⟨⟨fun _ => hrun, hb⟩, fun rest => ?_⟩
  obtain ⟨hcompleted, hreading⟩ := completed_name hname rest
  rw [total, collected_expect, expectation_expect]
  cases decl with
  | const =>
    simp [Expectation.reading, Expectation.completed, DeclKind.reading, hcompleted, hreading]
  | _ =>
    by_cases heq : rest.head? = some (.word "=") <;>
      simp [Expectation.reading, Expectation.completed, completedName, heq, hreading]

theorem declareBare_collected (hb : framesClear b.root b.frames) (hrun : b.level.run = [])
    {decl : DeclKind} {name : String} {span : Span} (h : b.declareBare decl name span = .ok b') :
    b'.expectation = b.expectation ∧ framesClear b'.root b'.frames ∧ decl ≠ .const ∧
      b'.collected = b.collected ++ decl.reading ++ [.word name, .word "=", .word "null"] := by
  obtain ⟨hconst, rfl⟩ := declareBare_eq_ok h
  refine ⟨by simp, framesClear_setLevel hb fun _ => rfl, hconst, ?_⟩
  rw [collected_item _ hrun]
  simp [Item.reading, Node.reading, assignReading, assignSign]

/-- **A step moves the words of its token from those to come to those that were read.** -/
theorem feed_total (hb : b.Clear) {token : Token} (heof : token.kind ≠ .eof)
    (h : b.feed token = .ok b') :
    b'.Clear ∧ ∀ rest, b'.total rest = b.total (token.kind :: rest) := by
  obtain ⟨hrun, hb⟩ := hb
  have hany : (b.past token).expectation = .any := rfl
  have hb : framesClear (b.past token).root (b.past token).frames := hb
  have hrun : b.expectation.waits = true → (b.past token).level.run = [] := hrun
  have htotal : ∀ kinds, b.total kinds = (b.past token).collected ++ b.expectation.reading ++
      (b.expectation.completed kinds).flatMap TokenKind.reading := fun _ => rfl
  simp only [htotal]
  -- A `(` is left out, and what it opens has been read.
  have hopen : ∀ {middle words}, Reads middle b' words →
      Reads middle b' (words ++ wordReading "(") := fun h => by simpa [wordReading] using h
  cases fed h with
  | handled hwaits h =>
    rw [hwaits]
    simpa [Expectation.reading, Expectation.completed] using handle_total hany hb heof h
  | header hwaits hkind =>
    rw [hwaits] at hrun ⊢
    rw [hkind]
    exact (hopen (reads_push hany hb (fun _ => hrun rfl) _)).total_word (by decide)
  | @name keyword name span level hwaits hname hlevel =>
    obtain ⟨hkind, hname⟩ := nameOf?_eq_some hname
    rw [hwaits, hkind]
    exact name_total hb hlevel hname keyword span
  | unnamed hwaits hname hkind =>
    rw [hwaits, hkind]
    exact (hopen (reads_push (b := { b.past token with anonymous := b.anonymous + 1 }) hany hb
      (by simp [Opener.waits]) _)).total_word (by decide)
  | params hwaits hkind =>
    rw [hwaits] at hrun ⊢
    rw [hkind]
    exact (hopen (reads_push hany hb (fun _ => hrun rfl) _)).total_word (by decide)
  | value hwaits hkind =>
    rw [hwaits, hkind]
    exact (reads_push hany hb (by simp [Opener.waits]) _).total_word (by decide)
  | body hwaits hkind =>
    rw [hwaits] at hrun ⊢
    rw [hkind]
    exact (reads_body hany hb (hrun rfl) _ _).total_word (by decide)
  | target hwaits hname =>
    obtain ⟨hkind, hname⟩ := nameOf?_eq_some hname
    rw [hwaits] at hrun ⊢
    rw [hkind]
    exact target_total hb (hrun rfl) hname _ _
  | @assigned decl name span hwaits hkind =>
    rw [hwaits] at hrun ⊢
    rw [hkind]
    have hitem : (Item.assign name decl span).reading =
        decl.reading ++ [.word name] ++ wordReading "=" := by
      simp [Item.reading, assignReading, assignSign, wordReading]
    have hread := hitem ▸ reads_item hany hb (hrun rfl) (.assign name decl span)
    have hcompleted : ∀ rest, (Expectation.initializer decl name span).completed
        (.word "=" :: rest) = completed (.word "=" :: rest) := by
      intro rest
      cases decl <;> simp [Expectation.completed]
    simp only [hcompleted]
    exact hread.total_word (by decide)
  | @declared decl name span declared _ hwaits hkind hdeclared h =>
    rw [hwaits] at hrun ⊢
    obtain ⟨hany, hb, hconst, hwords⟩ := declareBare_collected hb (hrun rfl) hdeclared
    obtain ⟨hclear, htotal⟩ := handle_total hany hb heof h
    refine ⟨hclear, fun rest => ?_⟩
    have hcompleted : (Expectation.initializer decl name span).completed (token.kind :: rest) =
        .word "=" :: .word "null" :: completed (token.kind :: rest) := by
      cases decl with
      | const => exact absurd rfl hconst
      | _ => simp [Expectation.completed, hkind]
    rw [htotal, hwords, hcompleted]
    simp [Expectation.reading, TokenKind.reading, wordReading]
  | branch hwaits hkind h =>
    rw [hwaits]
    simpa [Expectation.reading, Expectation.completed] using handle_total hany hb heof h
  | @ended level _ hwaits hkind hlevel h =>
    rw [hwaits, ← collected_setLevel_eq (b := b.past token) (Level.closeLine_reading hlevel)]
    have hclear := framesClear_setLevel hb fun _ => Level.closeLine_parts hlevel
    simpa [Expectation.reading, Expectation.completed] using
      handle_total ((expectation_setLevel _ level).trans hany) hclear heof h

/-- Reading tokens keeps the words that were read and those to come. -/
theorem foldlM_feed_total {tokens : List Token} (hb : b.Clear)
    (heof : ∀ token ∈ tokens, token.kind ≠ .eof) (h : tokens.foldlM feed b = .ok b') :
    b'.Clear ∧ b'.total [] = b.total (tokens.map Token.kind) := by
  induction tokens generalizing b with
  | nil =>
    cases h
    exact ⟨hb, rfl⟩
  | cons token rest ih =>
    rw [List.foldlM_cons] at h
    obtain ⟨next, hnext, h⟩ := bind_eq_ok_iff.mp h
    obtain ⟨htoken, hrest⟩ := List.forall_mem_cons.mp heof
    obtain ⟨hclear, htotal⟩ := feed_total hb htoken hnext
    obtain ⟨hclear, hfold⟩ := ih hclear hrest h
    exact ⟨hclear, by rw [hfold, htotal, List.map_cons]⟩

/-- At the end the words to come are those of a declaration without a value. -/
theorem settle_total (hb : b.Clear) {ending : Option Span} (h : b.settle ending = .ok b') :
    framesClear b'.root b'.frames ∧ b'.collected = b.total [] := by
  obtain ⟨hrun, hframes⟩ := hb
  rcases settle_eq_ok h with ⟨hwaits, rfl⟩ | ⟨decl, name, span, hwaits, h⟩ | ⟨hwaits, h⟩
  · exact ⟨hframes, by simp [total, hwaits, Expectation.reading, Expectation.completed, completed]⟩
  · obtain ⟨-, hclear, hconst, hwords⟩ := declareBare_collected hframes (hrun (by rw [hwaits]; rfl)) h
    refine ⟨hclear, ?_⟩
    rw [hwords, total, hwaits]
    cases decl with
    | const => exact absurd rfl hconst
    | _ =>
      simp [Expectation.reading, Expectation.completed, completed, TokenKind.reading, wordReading]
  · obtain ⟨level, hlevel, rfl⟩ := tryLevel_eq_ok h
    refine ⟨framesClear_setLevel hframes fun _ => Level.closeLine_parts hlevel, ?_⟩
    rw [collected_setLevel_eq (Level.closeLine_reading hlevel), total, hwaits]
    simp [Expectation.reading, Expectation.completed, completed]

theorem finish_reading (hb : b.Clear) {ending : Option Span} {program : Program}
    (h : b.finish ending = .ok program) : program.reading = b.total [] := by
  obtain ⟨settled, hsettled, h⟩ := bind_eq_ok_iff.mp h
  obtain ⟨hclear, htotal⟩ := settle_total hb hsettled
  split at h
  · cases h
  · cases h
  · rename_i hframes hgroups
    obtain ⟨root, hroot, h⟩ := bind_eq_ok_iff.mp h
    obtain rfl := pure_eq_ok_iff.mp h
    rw [hframes] at hclear
    have hparts : root.parts = [] := (Level.closeLine_parts hroot).trans hclear
    have hlines := Level.closeLine_lines hroot
    rw [← htotal, Program.reading, collected, hframes]
    simpa [hparts] using hlines

/-- A program reads off as the tokens that were read for it. -/
theorem foldlM_feed_reading {tokens : List Token} {ending : Option Span} {program : Program}
    (heof : ∀ token ∈ tokens, token.kind ≠ .eof) (hb : tokens.foldlM feed {} = .ok b)
    (h : b.finish ending = .ok program) :
    program.reading = significant (tokens.map Token.kind) := by
  have hstart : Builder.Clear {} := ⟨by simp [Expectation.waits], rfl⟩
  obtain ⟨hclear, htotal⟩ := foldlM_feed_total hstart heof hb
  rw [finish_reading hclear h, htotal]
  simp [total, collected, Level.reading, readingAll, Expectation.reading, Expectation.completed,
    significant]

end Builder

/-- **A program reads off as its tokens**, without parentheses, commas and semicolons. -/
theorem Program.ofTokens_reading {tokens : List Token} {program : Program}
    (h : Program.ofTokens tokens = .ok program) :
    program.reading = significant ((tokens.takeWhile (·.kind ≠ .eof)).map Token.kind) := by
  obtain ⟨b, hb, h⟩ := bind_eq_ok_iff.mp h
  have heof : ∀ token ∈ tokens.takeWhile (·.kind ≠ .eof), token.kind ≠ .eof := by
    intro token htoken
    have hkind := List.all_eq_true.mp List.all_takeWhile token htoken
    simpa using hkind
  exact Builder.foldlM_feed_reading heof hb h

/-- A declaration without a value, a target in parentheses, and an `else` branch in parentheses
of its own: `let x; (y) = (if (x) 1 (else f(2, -3)))`. -/
theorem Program.ofTokens_reading_odd : ∃ program,
    Program.ofTokens ([.word "let", .word "x", .separator, .word "(", .word "y", .word ")",
      .word "=", .word "(", .word "if", .word "(", .word "x", .word ")", .int 1, .word "(",
      .word "else", .word "f", .word "(", .int 2, .word ",", .word "-", .int 3, .word ")",
      .word ")", .word ")", .eof].map fun kind => ⟨kind, default⟩) = .ok program ∧
    program.reading = [.word "var", .word "x", .word "=", .word "null", .word "y", .word "=",
      .word "if", .word "x", .int 1, .word "else", .word "f", .int 2, .word "-", .int 3] := by
  refine (exists_ok_of_isOk ?_).imp fun program h => ⟨h, ?_⟩
  · decide +kernel
  · rw [Program.ofTokens_reading h]
    decide

end SlotScript
