import SlotScript.Proofs.Tree.Steps

/-!
# What a token has done once it is taken

A builder takes a token in one of a few ways, and which one is settled by what it waits for. Here
every step that succeeds is taken apart once: the conditions under which it succeeds, and the
builder that it leaves. What the steps keep is then shown from these cases alone.

**Theorem (`fed`).** A builder that has taken a token has handled it as a word that meets no
expectation, or has opened, named, assigned or ended what it was waiting for.
-/

namespace SlotScript

/-- Whether a frame is a block. -/
def Opener.isBlock : Opener → Bool
  | .block _ => true
  | _ => false

namespace Builder

variable {b b' : Builder} {span : Span}

/-- The builder that has taken up a token and goes on to see what it does. -/
def past (b : Builder) (token : Token) : Builder :=
  { b with previous := .token token.kind, expectation := .any }

/-- Whether the innermost level holds statements and not parts. -/
def inBlock (b : Builder) : Bool := b.opener?.all Opener.isBlock

/-! ## Single steps -/

/-- A `;` ends a statement, or a part of the header that it stands in. -/
theorem semicolon_eq_ok (h : b.semicolon span = .ok b') :
    b.level.groups = [] ∧
      (b.tryLevel Level.closeLine = .ok b' ∧ b.inBlock = true ∨
        b.tryLevel Level.closePart = .ok b' ∧ b.inBlock = false) := by
  have hend : ∀ {b'}, b.endStatement = .ok b' →
      b.level.groups = [] ∧ b.tryLevel Level.closeLine = .ok b' := by
    intro b' h
    unfold endStatement at h
    split at h
    · cases h
    · rename_i hgroups
      exact ⟨hgroups, h⟩
  unfold semicolon at h
  split at h
  · rename_i hopener
    exact ⟨(hend h).1, .inl ⟨(hend h).2, by simp [inBlock, hopener]⟩⟩
  · rename_i head hopener
    exact ⟨(hend h).1, .inl ⟨(hend h).2, by simp [inBlock, hopener, Opener.isBlock]⟩⟩
  · rename_i construct hopener hgroups
    exact ⟨hgroups, .inr ⟨h, by simp [inBlock, hopener, Opener.isBlock]⟩⟩
  · cases h

/-- A `,` ends an argument or a parameter. -/
theorem comma_eq_ok (h : b.comma span = .ok b') :
    b.level.groups = [] ∧ b.inBlock = false ∧
      b.tryLevel Level.closePart = .ok b' := by
  unfold comma at h
  split at h
  · rename_i callee hopener hgroups
    exact ⟨hgroups, by simp [inBlock, hopener, Opener.isBlock], h⟩
  · rename_i name anonymous hopener hgroups
    exact ⟨hgroups, by simp [inBlock, hopener, Opener.isBlock], h⟩
  · cases h

/-- What stands before a `=` is one name, and it becomes the target. -/
theorem equals_eq_ok (h : b.equals span = .ok b') :
    ∃ name place target, b.level.groups = [] ∧ b.level.run = [.operand (.ident name place target)] ∧
      b' = b.mapLevel fun level => { level with run := [] }.item (.assign name .plain target) := by
  unfold equals at h
  split at h
  · rename_i name place target hgroups hrun
    exact ⟨name, place, target, hgroups, hrun, (Except.ok.inj h).symm⟩
  · cases h
  · cases h

/-- An `else` stands behind a finished expression. -/
theorem otherwise_eq_ok (h : b.otherwise span = .ok b') :
    ∃ level node items, b.level.closeExpression = .ok level ∧ level.items = .node node :: items ∧
      b' = (b.setLevel level).mapLevel (·.item (.otherwise span)) := by
  obtain ⟨closed, hclosed, h⟩ := bind_eq_ok_iff.mp h
  obtain ⟨level, hlevel, rfl⟩ := tryLevel_eq_ok hclosed
  split at h
  · rename_i node items hitems
    rw [level_setLevel] at hitems
    exact ⟨level, node, items, hlevel, hitems, (pure_eq_ok_iff.mp h).symm⟩
  · cases h

/-- A keyword ends the expression before it. -/
theorem start_eq_ok {expectation : Expectation} (h : b.start expectation = .ok b') :
    ∃ level, b.level.closeExpression = .ok level ∧
      b' = (b.setLevel level).expect expectation := by
  obtain ⟨closed, hclosed, h⟩ := bind_eq_ok_iff.mp h
  obtain ⟨level, hlevel, rfl⟩ := tryLevel_eq_ok hclosed
  exact ⟨level, hlevel, (pure_eq_ok_iff.mp h).symm⟩

/-- A block ends the expression before it. -/
theorem openBrace_eq_ok (h : b.openBrace span = .ok b') :
    ∃ level, b.level.closeExpression = .ok level ∧
      b' = (b.setLevel level).push (.block none) span := by
  obtain ⟨closed, hclosed, h⟩ := bind_eq_ok_iff.mp h
  obtain ⟨level, hlevel, rfl⟩ := tryLevel_eq_ok hclosed
  exact ⟨level, hlevel, (pure_eq_ok_iff.mp h).symm⟩

/-- A `)` closes the innermost group, or else the frame of a call, a header or a parameter list. -/
theorem closeParen_eq_ok (h : b.closeParen span = .ok b') :
    (∃ opening groups, b.level.groups = opening :: groups ∧
        b' = b.mapLevel fun level => { level with groups := groups }) ∨
      ∃ opener place level outer, b.level.groups = [] ∧
        b.frames = ⟨opener, place, level⟩ :: outer ∧
        ((∃ callee, opener = .call callee ∧
            { b with frames := outer }.finishCall callee place span level = .ok b') ∨
          (∃ construct, opener = .header construct ∧
            { b with frames := outer }.finishHeader construct place span level = .ok b') ∨
          ∃ name anonymous, opener = .params name anonymous ∧
            { b with frames := outer }.finishParams name anonymous place span level = .ok b') := by
  unfold closeParen at h
  split at h
  · rename_i opening groups hgroups
    exact .inl ⟨opening, groups, hgroups, (Except.ok.inj h).symm⟩
  · cases h
  · rename_i frame outer hgroups hframes
    obtain ⟨opener, place, level⟩ := frame
    refine .inr ⟨opener, place, level, outer, hgroups, hframes, ?_⟩
    cases opener with
    | call callee => exact .inl ⟨callee, rfl, h⟩
    | header construct => exact .inr (.inl ⟨construct, rfl, h⟩)
    | params name anonymous => exact .inr (.inr ⟨name, anonymous, rfl, h⟩)
    | block head => cases h

/-- A `\x7d` closes a block, in which no group is left open. -/
theorem closeBrace_eq_ok (h : b.closeBrace span = .ok b') :
    ∃ head place level outer, b.level.groups = [] ∧
      b.frames = ⟨.block head, place, level⟩ :: outer ∧
      { b with frames := outer }.finishBlock head place span level = .ok b' := by
  unfold closeBrace at h
  split at h
  · cases h
  · cases h
  · rename_i frame outer hgroups hframes
    obtain ⟨opener, place, level⟩ := frame
    cases opener with
    | block head => exact ⟨head, place, level, outer, hgroups, hframes, h⟩
    | _ => cases h

/-- A variable that is given no value starts out as nothing; a constant has to be given one. -/
theorem declareBare_eq_ok {decl : DeclKind} {name : String}
    (h : b.declareBare decl name span = .ok b') :
    decl ≠ .const ∧ b' = b.mapLevel
      (·.item (.node (.assign name .unresolved decl none (.null span) span))) := by
  unfold declareBare at h
  split at h
  · cases h
  · rename_i hdecl
    exact ⟨hdecl, (Except.ok.inj h).symm⟩

theorem nameOf?_eq_some {token : Token} {name : String} (h : nameOf? token = some name) :
    token.kind = .word name ∧ isIdentifier name = true := by
  obtain ⟨kind, span⟩ := token
  cases kind with
  | word text =>
    obtain ⟨hname, rfl⟩ : isIdentifier name = true ∧ text = name := by
      simpa [nameOf?, TokenKind.word?, and_comm] using h
    exact ⟨rfl, hname⟩
  | _ => cases h

/-- Only a `(` opens what a keyword asks for. -/
theorem openAt_eq_ok {token : Token} {keyword : String} {opener : Opener}
    (h : b.openAt token keyword opener span = .ok b') :
    token.kind = .word "(" ∧ b' = b.push opener span := by
  unfold openAt at h
  split at h
  · rename_i hkind
    exact ⟨hkind, (Except.ok.inj h).symm⟩
  · cases h

/-- The end of the tokens leaves nothing to be waited for but a value or an `else`. -/
theorem settle_eq_ok {ending : Option Span} (h : b.settle ending = .ok b') :
    b.expectation = .any ∧ b' = b ∨
      (∃ decl name span, b.expectation = .initializer decl name span ∧
        b.declareBare decl name span = .ok b') ∨
      b.expectation = .otherwise ∧ b.tryLevel Level.closeLine = .ok b' := by
  unfold settle at h
  split at h
  case h_1 hexpectation => exact .inl ⟨hexpectation, (Except.ok.inj h).symm⟩
  case h_7 decl name span hexpectation => exact .inr (.inl ⟨decl, name, span, hexpectation, h⟩)
  case h_8 hexpectation => exact .inr (.inr ⟨hexpectation, h⟩)
  all_goals cases h

/-! ## Tokens -/

/-- What is waited for decides which function reads the token. -/
theorem feed_eq (b : Builder) (token : Token) : b.feed token =
    match b.expectation with
    | .any => (b.past token).handle b.previous token
    | .header construct span => (b.past token).openAt token construct.keyword (.header construct) span
    | .function keyword span => (b.past token).functionToken token keyword span
    | .params name keyword span => (b.past token).openAt token keyword (.params name false) span
    | .body head anonymous _ => (b.past token).bodyToken token head anonymous
    | .target decl span => (b.past token).targetToken token decl span
    | .initializer decl name span => (b.past token).initializerToken b.previous token decl name span
    | .otherwise => (b.past token).otherwiseToken b.previous token := rfl

/-- What a builder makes of a token, case by case of what it waits for. -/
inductive Fed (b : Builder) (token : Token) : Builder → Prop
  /-- Nothing in particular is waited for. -/
  | handled {b' : Builder} (hwaits : b.expectation = .any)
    (h : (b.past token).handle b.previous token = .ok b') : Fed b token b'
  | header {construct : Construct} {span : Span} (hwaits : b.expectation = .header construct span)
    (hkind : token.kind = .word "(") : Fed b token ((b.past token).push (.header construct) span)
  /-- The name of a function. -/
  | name {keyword name : String} {span : Span} {level : Level}
    (hwaits : b.expectation = .function keyword span) (hname : nameOf? token = some name)
    (hlevel : (b.past token).level.closeExpression = .ok level) :
    Fed b token (((b.past token).setLevel level).expect (.params name keyword span))
  /-- The parameters of a function without a name. -/
  | unnamed {keyword : String} {span : Span} (hwaits : b.expectation = .function keyword span)
    (hname : nameOf? token = none) (hkind : token.kind = .word "(") :
    Fed b token ({ b.past token with anonymous := b.anonymous + 1 }.push
      (.params b.anonymousName true) span)
  | params {name keyword : String} {span : Span} (hwaits : b.expectation = .params name keyword span)
    (hkind : token.kind = .word "(") : Fed b token ((b.past token).push (.params name false) span)
  /-- The body of a function that is a value. -/
  | value {head : FunctionHead} {close : Span} (hwaits : b.expectation = .body head true close)
    (hkind : token.kind = .word "\x7b") :
    Fed b token ((b.past token).push (.block (some head)) token.span)
  | body {head : FunctionHead} {close : Span} (hwaits : b.expectation = .body head false close)
    (hkind : token.kind = .word "\x7b") :
    Fed b token (((b.past token).mapLevel (·.item (.define head))).push (.block none) token.span)
  | target {decl : DeclKind} {name : String} {span : Span} (hwaits : b.expectation = .target decl span)
    (hname : nameOf? token = some name) :
    Fed b token ((b.past token).expect (.initializer decl name (span.merge token.span)))
  | assigned {decl : DeclKind} {name : String} {span : Span}
    (hwaits : b.expectation = .initializer decl name span) (hkind : token.kind = .word "=") :
    Fed b token ((b.past token).mapLevel (·.item (.assign name decl span)))
  /-- A declaration that no value follows. -/
  | declared {decl : DeclKind} {name : String} {span : Span} {declared b' : Builder}
    (hwaits : b.expectation = .initializer decl name span) (hkind : token.kind ≠ .word "=")
    (hdeclared : (b.past token).declareBare decl name span = .ok declared)
    (h : declared.handle b.previous token = .ok b') : Fed b token b'
  /-- The `else` behind a block. -/
  | branch {b' : Builder} (hwaits : b.expectation = .otherwise) (hkind : token.kind = .word "else")
    (h : (b.past token).handle b.previous token = .ok b') : Fed b token b'
  /-- A block that no `else` follows ends its statement. -/
  | ended {level : Level} {b' : Builder} (hwaits : b.expectation = .otherwise)
    (hkind : token.kind ≠ .word "else") (hlevel : (b.past token).level.closeLine = .ok level)
    (h : ((b.past token).setLevel level).handle b.previous token = .ok b') : Fed b token b'

/-- **A builder that has taken a token has done so in one of these ways.** -/
theorem fed {token : Token} (h : b.feed token = .ok b') : b.Fed token b' := by
  rw [feed_eq] at h
  split at h
  next hwaits => exact .handled hwaits h
  next construct span hwaits =>
    obtain ⟨hkind, rfl⟩ := openAt_eq_ok h
    exact .header hwaits hkind
  next keyword span hwaits =>
    unfold functionToken at h
    split at h
    · rename_i name hname
      obtain ⟨level, hlevel, rfl⟩ := start_eq_ok h
      exact .name hwaits hname hlevel
    · rename_i hname
      obtain ⟨hkind, rfl⟩ := openAt_eq_ok h
      exact .unnamed hwaits hname hkind
  next name keyword span hwaits =>
    obtain ⟨hkind, rfl⟩ := openAt_eq_ok h
    exact .params hwaits hkind
  next head anonymous close hwaits =>
    unfold bodyToken at h
    split at h
    · cases h
    · rename_i hkind
      have hkind : token.kind = .word "\x7b" := Decidable.not_not.mp hkind
      cases anonymous with
      | true =>
        obtain rfl := Except.ok.inj h
        exact .value hwaits hkind
      | false =>
        obtain rfl := Except.ok.inj h
        exact .body hwaits hkind
  next decl span hwaits =>
    unfold targetToken at h
    split at h
    · rename_i name hname
      obtain rfl := Except.ok.inj h
      exact .target hwaits hname
    · cases h
  next decl name span hwaits =>
    unfold initializerToken at h
    split at h
    · rename_i hkind
      obtain rfl := Except.ok.inj h
      exact .assigned hwaits hkind
    · rename_i hkind
      obtain ⟨declared, hdeclared, h⟩ := bind_eq_ok_iff.mp h
      exact .declared hwaits hkind hdeclared h
  next hwaits =>
    unfold otherwiseToken at h
    split at h
    · rename_i hkind
      exact .branch hwaits hkind h
    · rename_i hkind
      obtain ⟨closed, hclosed, h⟩ := bind_eq_ok_iff.mp h
      obtain ⟨level, hlevel, rfl⟩ := tryLevel_eq_ok hclosed
      exact .ended hwaits hkind hlevel h

end Builder

end SlotScript
