import Mathlib.Tactic.SplitIfs
import SlotScript.Proofs.Tree.Act
import SlotScript.Proofs.Tree.Fed

/-!
# Delimiters nest

Open parentheses are kept in two places. The ones of a call, a header or a parameter list have frames,
and the ones that only group are counted in the level they stand in. Braces have frames, too. From
the outermost to the innermost, `Builder.opened` lists all of them: for each frame its own delimiter
and then a `(` for every group.

**Theorem (`ofTokens_nested`).** After every token that was read, these are the delimiters that the
tokens so far opened and did not close. If the tokens make a program, their delimiters nest.

What a token does to the open delimiters is a step of a stack (`nest`), and the builder takes the same
step (`stack_feed`). That the stack accepts the words that nest, and no others, is `leaves_iff`.
-/

namespace SlotScript

/-! ## Words of delimiters -/

/-- The delimiter that a token is. -/
def TokenKind.delimiter? (kind : TokenKind) : Option Char :=
  if kind = .word "(" then some '('
  else if kind = .word ")" then some ')'
  else if kind = .word "\x7b" then some '\x7b'
  else if kind = .word "\x7d" then some '\x7d'
  else none

theorem TokenKind.delimiter?_eq_some {kind : TokenKind} {c : Char} (h : kind.delimiter? = some c) :
    kind = .word (String.singleton c) := by
  unfold delimiter? at h
  split_ifs at h with hkind hkind hkind hkind <;> obtain rfl := Option.some.inj h <;> exact hkind

/-- The delimiters among tokens. -/
def delimiters (tokens : List Token) : List Char := tokens.filterMap (·.kind.delimiter?)

/-- Words in which every delimiter is closed by its own kind, after all that was opened inside it. -/
inductive Nested : List Char → Prop
  | nil : Nested []
  | parens {inner rest : List Char} :
    Nested inner → Nested rest → Nested ('(' :: (inner ++ ')' :: rest))
  | braces {inner rest : List Char} :
    Nested inner → Nested rest → Nested ('\x7b' :: (inner ++ '\x7d' :: rest))

/-- Words that leave some delimiters open, the outermost first: around and between these the word
nests. -/
inductive Leaves : List Char → List Char → Prop
  | nested {word : List Char} : Nested word → Leaves word []
  | paren {word inner opened : List Char} :
    Leaves word opened → Nested inner → Leaves (word ++ '(' :: inner) (opened ++ ['('])
  | brace {word inner opened : List Char} :
    Leaves word opened → Nested inner → Leaves (word ++ '\x7b' :: inner) (opened ++ ['\x7b'])

/-! ## The stack of open delimiters -/

/-- What a delimiter does to the open ones, the innermost first. -/
def nest (stack : List Char) : Char → Option (List Char)
  | '(' => some ('(' :: stack)
  | '\x7b' => some ('\x7b' :: stack)
  | ')' => if stack.head? = some '(' then some stack.tail else none
  | '\x7d' => if stack.head? = some '\x7b' then some stack.tail else none
  | _ => none

theorem nest_eq_some {stack after : List Char} {c : Char} (h : nest stack c = some after) :
    c = '(' ∧ after = '(' :: stack ∨ c = '\x7b' ∧ after = '\x7b' :: stack ∨
      c = ')' ∧ stack = '(' :: after ∨ c = '\x7d' ∧ stack = '\x7b' :: after := by
  unfold nest at h
  split at h
  · exact .inl ⟨rfl, (Option.some.inj h).symm⟩
  · exact .inr (.inl ⟨rfl, (Option.some.inj h).symm⟩)
  · cases stack with
    | nil => cases h
    | cons top below =>
      obtain ⟨htop, rfl⟩ : top = '(' ∧ below = after := by simpa using h
      exact .inr (.inr (.inl ⟨rfl, by rw [htop]⟩))
  · cases stack with
    | nil => cases h
    | cons top below =>
      obtain ⟨htop, rfl⟩ : top = '\x7b' ∧ below = after := by simpa using h
      exact .inr (.inr (.inr ⟨rfl, by rw [htop]⟩))
  · cases h

/-- A word that nests leaves the stack as it is. -/
theorem Nested.foldlM_nest {word : List Char} (h : Nested word) (stack : List Char) :
    word.foldlM nest stack = some stack := by
  induction h generalizing stack with
  | nil => rfl
  | parens _ _ ihinner ihrest =>
    rw [List.foldlM_cons, nest, Option.bind_eq_bind, Option.bind_some, List.foldlM_append, ihinner]
    exact ihrest stack
  | braces _ _ ihinner ihrest =>
    rw [List.foldlM_cons, nest, Option.bind_eq_bind, Option.bind_some, List.foldlM_append, ihinner]
    exact ihrest stack

theorem Nested.append {word rest : List Char} (h : Nested word) (hrest : Nested rest) :
    Nested (word ++ rest) := by
  induction h with
  | nil => exact hrest
  | parens hinner _ _ ih =>
    rw [List.cons_append, List.append_assoc, List.cons_append]
    exact .parens hinner ih
  | braces hinner _ _ ih =>
    rw [List.cons_append, List.append_assoc, List.cons_append]
    exact .braces hinner ih

/-- What nests may be added behind what is left open. -/
theorem Leaves.append {word opened rest : List Char} (h : Leaves word opened) (hrest : Nested rest) :
    Leaves (word ++ rest) opened := by
  cases h with
  | nested hword => exact .nested (hword.append hrest)
  | paren hword hinner =>
    rw [List.append_assoc, List.cons_append]
    exact .paren hword (hinner.append hrest)
  | brace hword hinner =>
    rw [List.append_assoc, List.cons_append]
    exact .brace hword (hinner.append hrest)

/-- The innermost open delimiter is a `(`, and a `)` closes it. -/
theorem Leaves.closeParen {word opened : List Char} (h : Leaves word (opened ++ ['('])) :
    Leaves (word ++ [')']) opened := by
  generalize hopened : opened ++ ['('] = opened' at h
  cases h with
  | nested => simp at hopened
  | brace => simp at hopened
  | paren hword hinner =>
    obtain rfl := List.append_cancel_right hopened
    rw [List.append_assoc, List.cons_append]
    exact hword.append (.parens hinner .nil)

/-- The innermost open delimiter is a brace, and another closes it. -/
theorem Leaves.closeBrace {word opened : List Char} (h : Leaves word (opened ++ ['\x7b'])) :
    Leaves (word ++ ['\x7d']) opened := by
  generalize hopened : opened ++ ['\x7b'] = opened' at h
  cases h with
  | nested => simp at hopened
  | paren => simp at hopened
  | brace hword hinner =>
    obtain rfl := List.append_cancel_right hopened
    rw [List.append_assoc, List.cons_append]
    exact hword.append (.braces hinner .nil)

/-- A step of the stack is a step of the word. -/
theorem Leaves.nest {word stack after : List Char} {c : Char} (h : Leaves word stack.reverse)
    (hc : nest stack c = some after) : Leaves (word ++ [c]) after.reverse := by
  rcases nest_eq_some hc with ⟨rfl, rfl⟩ | ⟨rfl, rfl⟩ | ⟨rfl, rfl⟩ | ⟨rfl, rfl⟩
  · rw [List.reverse_cons]
    exact .paren h .nil
  · rw [List.reverse_cons]
    exact .brace h .nil
  · rw [List.reverse_cons] at h
    exact h.closeParen
  · rw [List.reverse_cons] at h
    exact h.closeBrace

theorem Leaves.foldlM_nest {word more stack after : List Char} (h : Leaves word stack.reverse)
    (hmore : more.foldlM SlotScript.nest stack = some after) :
    Leaves (word ++ more) after.reverse := by
  induction more generalizing word stack with
  | nil =>
    obtain rfl : stack = after := by simpa using hmore
    rwa [List.append_nil]
  | cons c more ih =>
    rw [List.foldlM_cons, Option.bind_eq_bind, Option.bind_eq_some_iff] at hmore
    obtain ⟨next, hnext, hmore⟩ := hmore
    rw [← List.singleton_append, ← List.append_assoc]
    exact ih (h.nest hnext) hmore

/-- The stack holds what a word leaves open, and there is no other way to read the word. -/
theorem leaves_iff {word opened : List Char} :
    Leaves word opened ↔ word.foldlM nest [] = some opened.reverse := by
  constructor
  · intro h
    induction h with
    | nested hword => exact hword.foldlM_nest []
    | paren _ hinner ih =>
      rw [List.foldlM_append, ih, Option.bind_eq_bind, Option.bind_some, List.foldlM_cons,
        SlotScript.nest, Option.bind_eq_bind, Option.bind_some, hinner.foldlM_nest,
        List.reverse_append]
      rfl
    | brace _ hinner ih =>
      rw [List.foldlM_append, ih, Option.bind_eq_bind, Option.bind_some, List.foldlM_cons,
        SlotScript.nest, Option.bind_eq_bind, Option.bind_some, hinner.foldlM_nest,
        List.reverse_append]
      rfl
  · intro h
    have hword := Leaves.foldlM_nest (.nested .nil : Leaves [] [].reverse) h
    rwa [List.reverse_reverse, List.nil_append] at hword

theorem Leaves.nested_of_nil {word : List Char} (h : Leaves word []) : Nested word := by
  generalize hopened : ([] : List Char) = opened at h
  cases h with
  | nested hword => exact hword
  | paren => simp at hopened
  | brace => simp at hopened

/-! ## What the builder holds open -/

/-- The groups that are open in a level. -/
def Level.stack (level : Level) : List Char := level.groups.map fun _ => '('

namespace Builder

/-- The delimiters that are open in a level and in the frames above it, the innermost first. -/
def stackOf (root : Level) : List Frame → List Char
  | [] => root.stack
  | frame :: outer => frame.level.stack ++ frame.opener.delimiter :: stackOf root outer

/-- The open delimiters, the innermost first. -/
def stack (b : Builder) : List Char := stackOf b.root b.frames

/-- The open delimiters, the outermost first: those of the program, and of each frame its own
delimiter and then its groups. -/
def opened (b : Builder) : List Char :=
  b.root.groups.map (fun _ => '(') ++
    b.frames.reverse.flatMap fun frame =>
      frame.opener.delimiter :: frame.level.groups.map fun _ => '('

/-- The delimiters below the innermost level. -/
def beneath (b : Builder) : List Char :=
  match b.frames with
  | [] => []
  | frame :: outer => frame.opener.delimiter :: stackOf b.root outer

variable {b b' : Builder}

theorem opened_eq (b : Builder) : b.opened = b.stack.reverse := by
  have hlevel : ∀ level : Level, level.stack.reverse = level.groups.map fun _ => '(' := by
    intro level
    rw [Level.stack, ← List.map_reverse, List.map_const', List.map_const', List.length_reverse]
  rcases b with ⟨root, frames, expectation, previous, anonymous⟩
  simp only [opened, stack]
  induction frames with
  | nil => simp [stackOf, hlevel]
  | cons frame outer ih =>
    simp [stackOf, ← ih, hlevel]

theorem stack_eq (b : Builder) : b.stack = b.level.stack ++ b.beneath := by
  rcases b with ⟨root, _ | ⟨frame, outer⟩, expectation, previous, anonymous⟩
  · exact (List.append_nil _).symm
  · rfl

theorem stack_setLevel (b : Builder) (level : Level) :
    (b.setLevel level).stack = level.stack ++ b.beneath := by
  rcases b with ⟨root, _ | ⟨frame, outer⟩, expectation, previous, anonymous⟩
  · exact (List.append_nil _).symm
  · rfl

theorem stack_mapLevel {f : Level → Level} (hf : (f b.level).groups = b.level.groups) :
    (b.mapLevel f).stack = b.stack := by
  rw [mapLevel, stack_setLevel, stack_eq, Level.stack, Level.stack, hf]

/-- A step that keeps the groups of the innermost level. -/
theorem stack_setLevel_eq {level : Level} (h : level.groups = b.level.groups) :
    (b.setLevel level).stack = b.stack := by
  rw [stack_setLevel, stack_eq, Level.stack, Level.stack, h]

theorem stack_tryLevel {f : Level → Except BuildError Level}
    (hf : ∀ {level after}, f level = .ok after → after.groups = level.groups)
    (h : b.tryLevel f = .ok b') : b'.stack = b.stack := by
  obtain ⟨level, hlevel, rfl⟩ := tryLevel_eq_ok h
  exact stack_setLevel_eq (hf hlevel)

theorem stack_push (opener : Opener) (span : Span) :
    (b.push opener span).stack = opener.delimiter :: b.stack := rfl

theorem stack_openParen (b : Builder) (previous : Previous) (span : Span) :
    (b.openParen previous span).stack = '(' :: b.stack := by
  unfold openParen
  split
  · rw [stack_push, stack_mapLevel rfl]
    rfl
  · rw [mapLevel, stack_setLevel, stack_eq]
    rfl

theorem stack_openBrace {span : Span} (h : b.openBrace span = .ok b') :
    b'.stack = '\x7b' :: b.stack := by
  obtain ⟨level, hlevel, rfl⟩ := openBrace_eq_ok h
  rw [stack_push, stack_setLevel_eq (Level.closeExpression_groups hlevel)]
  rfl

theorem stack_closeParen {span : Span} (h : b.closeParen span = .ok b') :
    b.stack = '(' :: b'.stack := by
  -- Whatever was closed, the level below keeps its groups.
  have hframe : ∀ {opener place level outer}, b.frames = ⟨opener, place, level⟩ :: outer →
      level.groups = [] → opener.delimiter = '(' → b.stack = '(' :: stackOf b.root outer := by
    intro opener place level outer hframes hgroups hopener
    rw [stack, hframes, stackOf, Level.stack, hgroups, hopener]
    rfl
  cases closesParen h with
  | group hgroups =>
    rw [stack_eq, mapLevel, stack_setLevel, Level.stack, hgroups]
    rfl
  | call outer hframes hgroups node =>
    have hbelow : ({ b with frames := outer }.mapLevel (·.operand node)).stack = stackOf b.root outer :=
      stack_mapLevel rfl
    rw [hframe hframes hgroups rfl, ← hbelow]
    rfl
  | @header _ _ _ _ _ item outer hframes hgroups hitem =>
    have hbelow : ({ b with frames := outer }.mapLevel (·.item item)).stack = stackOf b.root outer :=
      stack_mapLevel rfl
    rw [hframe hframes hgroups rfl, ← hbelow]
    rfl
  | params outer hframes hgroups head close => exact hframe hframes hgroups rfl

theorem stack_closeBrace {span : Span} (h : b.closeBrace span = .ok b') :
    b.stack = '\x7b' :: b'.stack := by
  have hframe : ∀ {head place level outer}, b.frames = ⟨.block head, place, level⟩ :: outer →
      level.groups = [] → b.stack = '\x7b' :: stackOf b.root outer := by
    intro head place level outer hframes hgroups
    rw [stack, hframes, stackOf, Level.stack, hgroups]
    rfl
  cases closesBrace h with
  | block outer hframes hgroups body place =>
    have hbelow : ({ b with frames := outer }.mapLevel (·.item (.node (.block body place)))).stack =
        stackOf b.root outer := stack_mapLevel rfl
    rw [hframe hframes hgroups, ← hbelow]
    rfl
  | function outer hframes hgroups node =>
    have hbelow : ({ b with frames := outer }.mapLevel (·.operand node)).stack = stackOf b.root outer :=
      stack_mapLevel rfl
    rw [hframe hframes hgroups, ← hbelow]

/-! ## Reading tokens -/

/-- What a token does to the open delimiters. -/
def nestKind (stack : List Char) (kind : TokenKind) : Option (List Char) :=
  match kind.delimiter? with
  | none => some stack
  | some c => nest stack c

/-- A token that is no delimiter, and what it does. -/
theorem Act.stack {previous : Previous} {token : Token} {act : Builder → Except BuildError Builder}
    (hact : Act previous token act) (hkind : token.kind.delimiter? = none) (h : act b = .ok b') :
    b'.stack = b.stack := by
  have hnot : ∀ {text}, token.kind = .word text →
      TokenKind.delimiter? (.word text) ≠ none → False := fun heq hne => hne (heq ▸ hkind)
  cases hact with
  | operand node =>
    rw [← Except.ok.inj h]
    exact stack_mapLevel rfl
  | operator op base =>
    rw [← Except.ok.inj h]
    exact stack_mapLevel rfl
  | openParen htoken => exact (hnot htoken (by decide)).elim
  | closeParen htoken => exact (hnot htoken (by decide)).elim
  | openBrace htoken => exact (hnot htoken (by decide)).elim
  | closeBrace htoken => exact (hnot htoken (by decide)).elim
  | comma => exact stack_tryLevel Level.closePart_groups (comma_eq_ok h).2.2
  | equals =>
    obtain ⟨name, place, target, -, -, rfl⟩ := equals_eq_ok h
    exact stack_mapLevel rfl
  | semicolon =>
    obtain ⟨-, ⟨h, -⟩ | ⟨h, -⟩⟩ := semicolon_eq_ok h
    · exact stack_tryLevel Level.closeLine_groups h
    · exact stack_tryLevel Level.closePart_groups h
  | function keyword =>
    rw [← Except.ok.inj h]
    rfl
  | start expectation =>
    obtain ⟨level, hlevel, rfl⟩ := start_eq_ok h
    exact stack_setLevel_eq (Level.closeExpression_groups hlevel)
  | otherwise =>
    obtain ⟨level, node, items, hlevel, -, rfl⟩ := otherwise_eq_ok h
    rw [stack_mapLevel rfl]
    exact stack_setLevel_eq (Level.closeExpression_groups hlevel)
  | nothing =>
    rw [← Except.ok.inj h]
  | fails e => cases h

theorem stack_handle {previous : Previous} {token : Token} (h : b.handle previous token = .ok b') :
    nestKind b.stack token.kind = some b'.stack := by
  rcases token with ⟨kind, span⟩
  by_cases hopenParen : kind = .word "("
  · subst hopenParen
    have h : Except.ok (b.openParen previous span) = .ok b' := h
    rw [← Except.ok.inj h, stack_openParen]
    rfl
  by_cases hcloseParen : kind = .word ")"
  · subst hcloseParen
    have h : b.closeParen span = .ok b' := h
    rw [stack_closeParen h]
    rfl
  by_cases hopenBrace : kind = .word "\x7b"
  · subst hopenBrace
    have h : b.openBrace span = .ok b' := h
    rw [stack_openBrace h]
    rfl
  by_cases hcloseBrace : kind = .word "\x7d"
  · subst hcloseBrace
    have h : b.closeBrace span = .ok b' := h
    rw [stack_closeBrace h]
    rfl
  · have hkind : kind.delimiter? = none := by
      simp [TokenKind.delimiter?, hopenParen, hcloseParen, hopenBrace, hcloseBrace]
    obtain ⟨act, hact, heq⟩ := exists_act previous ⟨kind, span⟩
    simp [nestKind, hkind, hact.stack hkind ((heq b).symm.trans h)]

theorem nestKind_of_nameOf? {token : Token} {name : String} (h : nameOf? token = some name)
    (stack : List Char) : nestKind stack token.kind = some stack := by
  have hnot : ∀ text, isIdentifier text = false → token.kind ≠ .word text := by
    intro text htext hkind
    obtain ⟨hword, hname⟩ := nameOf?_eq_some h
    obtain rfl : text = name := TokenKind.word.inj (hkind.symm.trans hword)
    rw [htext] at hname
    cases hname
  simp [nestKind, TokenKind.delimiter?, hnot _ (show isIdentifier "(" = false by decide),
    hnot _ (show isIdentifier ")" = false by decide),
    hnot _ (show isIdentifier "\x7b" = false by decide),
    hnot _ (show isIdentifier "\x7d" = false by decide)]

/-- **A token does to the delimiters that the builder holds open what it does to a stack of them.** -/
theorem stack_feed {token : Token} (h : b.feed token = .ok b') :
    nestKind b.stack token.kind = some b'.stack := by
  change nestKind (b.past token).stack token.kind = some b'.stack
  cases fed h with
  | handled _ h => exact stack_handle h
  | header _ hkind =>
    rw [hkind]
    rfl
  | name _ hname hlevel =>
    rw [nestKind_of_nameOf? hname]
    exact congrArg some (stack_setLevel_eq (Level.closeExpression_groups hlevel)).symm
  | unnamed _ _ hkind =>
    rw [hkind]
    rfl
  | params _ hkind =>
    rw [hkind]
    rfl
  | value _ hkind =>
    rw [hkind]
    rfl
  | body _ hkind =>
    rw [hkind, stack_push, stack_mapLevel rfl]
    rfl
  | target _ hname =>
    rw [nestKind_of_nameOf? hname]
    rfl
  | assigned _ hkind =>
    rw [hkind, stack_mapLevel rfl]
    rfl
  | declared _ _ hdeclared h =>
    obtain ⟨-, rfl⟩ := declareBare_eq_ok hdeclared
    have hhandle := stack_handle h
    rwa [stack_mapLevel rfl] at hhandle
  | branch _ _ h => exact stack_handle h
  | ended _ _ hlevel h =>
    have hhandle := stack_handle h
    rwa [stack_setLevel_eq (Level.closeLine_groups hlevel)] at hhandle

theorem stack_foldlM_feed {tokens : List Token} (h : tokens.foldlM feed b = .ok b') :
    (delimiters tokens).foldlM nest b.stack = some b'.stack := by
  induction tokens generalizing b with
  | nil =>
    rw [Except.ok.inj h]
    rfl
  | cons token rest ih =>
    obtain ⟨next, hnext, h⟩ := bind_eq_ok_iff.mp h
    have hstep := stack_feed hnext
    rw [delimiters, List.filterMap_cons]
    unfold nestKind at hstep
    split at hstep
    · rename_i hkind
      simp only [hkind, Option.some.inj hstep]
      exact ih h
    · rename_i c hkind
      simp only [hkind, List.foldlM_cons, hstep]
      exact ih h

/-- What the tokens so far left open is what the builder holds open. -/
theorem leaves_opened {tokens : List Token} (h : tokens.foldlM feed {} = .ok b) :
    Leaves (delimiters tokens) b.opened := by
  rw [leaves_iff, opened_eq, List.reverse_reverse]
  exact stack_foldlM_feed h

/-! ## Open parentheses -/

/-- How many parentheses are open. -/
def parens (b : Builder) : Nat := b.stack.count '('

/-- Every `(` that is read opens a parenthesis, and every `)` closes one. -/
theorem parens_feed {token : Token} (h : b.feed token = .ok b') :
    b'.parens + (if token.kind = .word ")" then 1 else 0) =
      b.parens + if token.kind = .word "(" then 1 else 0 := by
  have hstep := stack_feed h
  unfold nestKind at hstep
  split at hstep
  · rename_i hkind
    have hopen : token.kind ≠ .word "(" := by
      intro heq
      rw [heq] at hkind
      cases hkind
    have hclose : token.kind ≠ .word ")" := by
      intro heq
      rw [heq] at hkind
      cases hkind
    rw [if_neg hopen, if_neg hclose, parens, parens, Option.some.inj hstep]
  · rename_i c hkind
    rw [TokenKind.delimiter?_eq_some hkind]
    rcases nest_eq_some hstep with ⟨rfl, hstack⟩ | ⟨rfl, hstack⟩ | ⟨rfl, hstack⟩ | ⟨rfl, hstack⟩ <;>
      simp +decide [parens, hstack]

theorem root_groups_of_parens (h : b.parens = 0) : b.root.groups = [] := by
  have hroot : ∀ frames, '(' ∈ b.root.stack → '(' ∈ stackOf b.root frames := by
    intro frames hmem
    induction frames with
    | nil => exact hmem
    | cons frame outer ih => exact List.mem_append_right _ (List.mem_cons_of_mem _ ih)
  cases hgroups : b.root.groups with
  | nil => rfl
  | cons opening groups =>
    have hmem := hroot b.frames (by rw [Level.stack, hgroups]; exact List.mem_cons_self)
    exact absurd hmem (List.count_eq_zero.1 h)

/-! ## Whole programs -/

theorem stack_settle {ending : Option Span} (h : b.settle ending = .ok b') : b'.stack = b.stack := by
  rcases settle_eq_ok h with ⟨-, rfl⟩ | ⟨decl, name, span, -, h⟩ | ⟨-, h⟩
  · rfl
  · obtain ⟨-, rfl⟩ := declareBare_eq_ok h
    exact stack_mapLevel rfl
  · exact stack_tryLevel Level.closeLine_groups h

/-- A program ends with nothing open. -/
theorem opened_of_finish {ending : Option Span} {program : Program}
    (h : b.finish ending = .ok program) : b.opened = [] := by
  obtain ⟨settled, hsettled, h⟩ := bind_eq_ok_iff.mp h
  rw [opened_eq, ← stack_settle hsettled]
  rcases settled with ⟨⟨run, items, lines, parts, _ | ⟨opening, groups⟩⟩, _ | ⟨frame, outer⟩,
    expectation, previous, anonymous⟩
  · rfl
  · cases h
  · cases h
  · cases h

end Builder

/-- **Delimiters nest.** After any part of the tokens that the builder has read it holds open just
the delimiters that this part leaves open, and the delimiters of a program nest. -/
theorem Program.ofTokens_nested (tokens : List Token) :
    (∀ before b, before <+: tokens.takeWhile (·.kind ≠ .eof) → before.foldlM Builder.feed {} = .ok b →
      ∀ opened, Leaves (delimiters before) opened ↔ opened = b.opened) ∧
    ∀ program, Program.ofTokens tokens = .ok program →
      Nested (delimiters (tokens.takeWhile (·.kind ≠ .eof))) := by
  constructor
  · intro before b _ hb opened
    have hleaves := Builder.leaves_opened hb
    constructor
    · intro hopened
      have hsame := (leaves_iff.1 hopened).symm.trans (leaves_iff.1 hleaves)
      exact List.reverse_inj.1 (Option.some.inj hsame)
    · rintro rfl
      exact hleaves
  · intro program hprogram
    obtain ⟨b, hb, hfinish⟩ := bind_eq_ok_iff.mp hprogram
    have hleaves := Builder.leaves_opened hb
    rw [Builder.opened_of_finish hfinish] at hleaves
    exact hleaves.nested_of_nil

/-- A function in a group in a call, `f((def (x) \x7b (x) \x7d))`, and the same up to the group in the
function. -/
theorem Program.ofTokens_nested_group : ∃ tokens before b program,
    before <+: tokens.takeWhile (·.kind ≠ .eof) ∧ before.foldlM Builder.feed {} = .ok b ∧
    Program.ofTokens tokens = .ok program ∧
    delimiters before = ['(', '(', '(', ')', '\x7b', '('] ∧
    Leaves (delimiters before) ['(', '(', '\x7b', '('] ∧
    delimiters tokens = ['(', '(', '(', ')', '\x7b', '(', ')', '\x7d', ')', ')'] ∧
    Nested (delimiters (tokens.takeWhile (·.kind ≠ .eof))) := by
  let before : List Token := [.word "f", .word "(", .word "(", .word "def", .word "(", .word "x",
    .word ")", .word "\x7b", .word "("].map (⟨·, default⟩)
  let rest : List Token :=
    [.word "x", .word ")", .word "\x7d", .word ")", .word ")", .eof].map (⟨·, default⟩)
  obtain ⟨b, hb⟩ := exists_ok_of_isOk
    (show (before.foldlM Builder.feed {}).isOk = true by decide +kernel)
  obtain ⟨program, hprogram⟩ := exists_ok_of_isOk
    (show (Program.ofTokens (before ++ rest)).isOk = true by decide +kernel)
  have hbefore : before <+: (before ++ rest).takeWhile (·.kind ≠ .eof) := by decide
  have hopened : (before.foldlM Builder.feed {}).toOption.map Builder.opened =
      some ['(', '(', '\x7b', '('] := by
    decide +kernel
  rw [hb] at hopened
  obtain ⟨hleaves, hnested⟩ := ofTokens_nested (before ++ rest)
  exact ⟨before ++ rest, before, b, program, hbefore, hb, hprogram, by decide,
    (hleaves before b hbefore hb _).2 (Option.some.inj hopened).symm, by decide,
    hnested program hprogram⟩

end SlotScript
