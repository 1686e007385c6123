import SlotScript.Proofs.Tree.Fed

/-!
# Looking ahead

A builder that expects a certain token waits for it. It could as well look at the token that comes
next and settle the expectation at once.

**Theorem (`runFrom_resolve`).** Reading on is the same as settling the expectation by what comes next
(`Builder.resolve`) and then reading on from there.

Two expectations are settled without taking a token, since what they wait for may be missing: the `=`
after a declared name and the `else` after a block. The brace of a function's body is looked at and
left in place.
-/

namespace SlotScript

/-- The next token, if it is a word. -/
def wordAhead (tokens : List Token) : Option String := tokens.head?.bind (·.kind.word?)

/-- Where the next token stands; without one, the given span. -/
def spanAhead (tokens : List Token) (span : Span) : Span := (tokens.head?.map Token.span).getD span

theorem wordAhead_cons {token : Token} {rest : List Token} {word : String} :
    wordAhead (token :: rest) = some word ↔ token.kind = .word word := by
  rw [wordAhead, List.head?_cons, Option.bind_some]
  cases token.kind <;> simp [TokenKind.word?]

namespace Builder

/-- The program that the builder makes of the tokens to come. -/
def runFrom (b : Builder) (tokens : List Token) : Except BuildError Program := do
  let b ← (tokens.takeWhile (·.kind ≠ .eof)).foldlM Builder.feed b
  b.finish ((tokens.find? (·.kind = .eof)).map (·.span))

theorem ofTokens_eq_runFrom (tokens : List Token) : Program.ofTokens tokens = runFrom {} tokens := rfl

theorem runFrom_nil (b : Builder) : b.runFrom [] = b.finish none := rfl

theorem runFrom_eof (b : Builder) {token : Token} (h : token.kind = .eof) (rest : List Token) :
    b.runFrom (token :: rest) = b.finish (some token.span) := by
  simp [runFrom, h]

theorem runFrom_cons (b : Builder) {token : Token} (h : token.kind ≠ .eof) (rest : List Token) :
    b.runFrom (token :: rest) = b.feed token >>= fun b => b.runFrom rest := by
  simp [runFrom, h]

/-! ## Settling an expectation -/

/-- The builder after a word that it expected. -/
def passed (b : Builder) (word : String) : Builder :=
  { b with previous := .token (.word word), expectation := .any }

/-- Opens a delimiter if a `(` comes next. -/
def openAhead (b : Builder) (tokens : List Token) (keyword : String) (opener : Opener)
    (span : Span) : Except BuildError (Builder × List Token) :=
  if wordAhead tokens = some "(" then .ok ((b.passed "(").push opener span, tokens.tail)
  else .error { fault := .expectedParen keyword, span := spanAhead tokens span }

/-- A declaration, by whether a `=` comes next. -/
def declareAhead (b : Builder) (tokens : List Token) (decl : DeclKind) (name : String)
    (span : Span) : Except BuildError (Builder × List Token) :=
  if wordAhead tokens = some "=" then
    .ok ((b.passed "=").mapLevel (·.item (.assign name decl span)), tokens.tail)
  else do
    let b ← b.declareBare decl name span
    return (b.expect .any, tokens)

/-- Settles the expectation by what comes next. -/
def resolve (b : Builder) (tokens : List Token) : Except BuildError (Builder × List Token) :=
  match b.expectation with
  | .any => .ok (b, tokens)
  | .header construct span => b.openAhead tokens construct.keyword (.header construct) span
  | .params name keyword span => b.openAhead tokens keyword (.params name false) span
  | .function keyword span =>
    match (wordAhead tokens).filter isIdentifier with
    | some name => do
      let b ← (b.passed name).tryLevel Level.closeExpression
      b.openAhead tokens.tail keyword (.params name false) span
    | none =>
      { b with anonymous := b.anonymous + 1 }.openAhead tokens keyword
        (.params b.anonymousName true) span
  | .body _ _ close =>
    if wordAhead tokens = some "\x7b" then .ok (b, tokens)
    else .error { fault := .missingBody, span := spanAhead tokens close }
  | .target decl span =>
    match (wordAhead tokens).filter isIdentifier with
    | some name =>
      (b.passed name).declareAhead tokens.tail decl name (span.merge (spanAhead tokens span))
    | none => .error { fault := .invalidTarget, span := spanAhead tokens span }
  | .initializer decl name span => b.declareAhead tokens decl name span
  | .otherwise =>
    if wordAhead tokens = some "else" then .ok (b.expect .any, tokens)
    else do
      let b ← b.tryLevel Level.closeLine
      return (b.expect .any, tokens)

/-- Either the tokens are at an end, or the next one is read. -/
theorem runFrom_cases (tokens : List Token) :
    (∃ ending, (∀ b : Builder, b.runFrom tokens = b.finish ending) ∧ wordAhead tokens = none ∧
      ∀ span, spanAhead tokens span = ending.getD span) ∨
    ∃ token rest, tokens = token :: rest ∧
      ∀ b : Builder, b.runFrom tokens = b.feed token >>= fun b => b.runFrom rest := by
  rcases tokens with _ | ⟨token, rest⟩
  · exact .inl ⟨none, fun b => b.runFrom_nil, rfl, fun _ => rfl⟩
  · by_cases h : token.kind = .eof
    · refine .inl ⟨some token.span, fun b => b.runFrom_eof h rest, ?_, fun _ => rfl⟩
      simp [wordAhead, h, TokenKind.word?]
    · exact .inr ⟨token, rest, rfl, fun b => b.runFrom_cons h rest⟩

variable {b : Builder}

/-- A delimiter that has to come next. -/
theorem runFrom_openAhead {keyword : String} {opener : Opener} {span : Span}
    (hfeed : ∀ token, b.feed token =
      { b with previous := .token token.kind, expectation := .any }.openAt token keyword opener span)
    (hend : ∀ ending, b.settle ending =
      .error { fault := .expectedParen keyword, span := ending.getD span }) (tokens : List Token) :
    b.runFrom tokens = b.openAhead tokens keyword opener span >>= fun p => p.1.runFrom p.2 := by
  unfold openAhead
  rcases runFrom_cases tokens with ⟨ending, hrun, hword, hspan⟩ | ⟨token, rest, rfl, hrun⟩
  · rw [hrun, finish, hend, hword, hspan]
    rfl
  · rw [hrun, hfeed, openAt]
    by_cases hparen : token.kind = .word "("
    · rw [if_pos hparen, if_pos (wordAhead_cons.2 hparen), hparen]
      rfl
    · rw [if_neg hparen, if_neg (mt wordAhead_cons.1 hparen)]
      rfl

/-- What is settled at the end is settled before it. -/
theorem finish_eq (b : Builder) (ending : Option Span) :
    b.finish ending = b.settle ending >>= fun b => (b.expect .any).finish ending := rfl

/-- A step that settles the expectation without a token, and leaves the rest of the builder's memory
alone. -/
structure Settles (b : Builder) (step : Builder → Except BuildError Builder) : Prop where
  previous : ∀ b', step b = .ok b' → b'.previous = b.previous
  ahead : ∀ previous, step { b with previous := previous, expectation := .any } =
    step b >>= fun b => .ok { b with previous := previous, expectation := .any }

theorem settles_tryLevel (f : Level → Except BuildError Level) : b.Settles (·.tryLevel f) := by
  rcases b with ⟨root, _ | ⟨frame, outer⟩, expectation, previous, anonymous⟩
  all_goals
    constructor
    · intro b' hb'
      obtain ⟨level, -, hb'⟩ := bind_eq_ok_iff.1 hb'
      rw [← pure_eq_ok_iff.1 hb']
      rfl
    · intro previous
      simp only [tryLevel, level, bind_assoc]
      rfl

theorem settles_declareBare (decl : DeclKind) (name : String) (span : Span) :
    b.Settles (·.declareBare decl name span) := by
  rcases b with ⟨root, _ | ⟨frame, outer⟩, expectation, previous, anonymous⟩
  all_goals
    constructor
    · intro b' hb'
      cases decl <;> cases hb' <;> rfl
    · intro previous
      cases decl <;> rfl

/-- Settling the expectation when the next token comes is settling it now. -/
theorem runFrom_settle {step : Builder → Except BuildError Builder} (hb : b.Settles step)
    {tokens : List Token} (hend : ∀ ending, b.settle ending = step b)
    (hfeed : ∀ token rest, tokens = token :: rest → b.feed token =
      step { b with previous := .token token.kind, expectation := .any } >>= fun b' =>
        b'.handle b.previous token) :
    b.runFrom tokens = step b >>= fun b => (b.expect .any).runFrom tokens := by
  rcases runFrom_cases tokens with ⟨ending, hrun, -, -⟩ | ⟨token, rest, rfl, hrun⟩
  · rw [hrun, finish_eq, hend]
    simp only [hrun]
  · rw [hrun, hfeed token rest rfl, hb.ahead, bind_assoc, bind_assoc]
    cases hstep : step b with
    | error e => rfl
    | ok b' =>
      simp only [ok_bind, hrun, ← hb.previous b' hstep]
      rfl

/-- A declared name with or without a `=` after it. -/
theorem runFrom_declareAhead {decl : DeclKind} {name : String} {span : Span}
    (hb : b.expectation = .initializer decl name span) (tokens : List Token) :
    b.runFrom tokens = b.declareAhead tokens decl name span >>= fun p => p.1.runFrom p.2 := by
  unfold declareAhead
  by_cases hword : wordAhead tokens = some "="
  · rw [if_pos hword, ok_bind]
    rcases runFrom_cases tokens with ⟨ending, -, hnone, -⟩ | ⟨token, rest, rfl, hrun⟩
    · rw [hnone] at hword
      cases hword
    · have hkind := wordAhead_cons.1 hword
      rw [hrun, feed, hb]
      simp only [initializerToken, hkind, if_pos, ok_bind]
      rfl
  · rw [if_neg hword, bind_assoc]
    refine runFrom_settle (settles_declareBare decl name span) (fun _ => ?_) fun token rest heq => ?_
    · rw [settle, hb]
    · subst heq
      rw [feed, hb]
      simp only [initializerToken]
      rw [if_neg (mt wordAhead_cons.2 hword)]

theorem declareAhead_expect (expectation : Expectation) (tokens : List Token) (decl : DeclKind)
    (name : String) (span : Span) : (b.expect expectation).declareAhead tokens decl name span =
      b.declareAhead tokens decl name span := by
  rcases b with ⟨root, _ | ⟨frame, outer⟩, old, previous, anonymous⟩ <;> cases decl <;> rfl

theorem runFrom_resolve (b : Builder) (tokens : List Token) :
    b.runFrom tokens = b.resolve tokens >>= fun p => p.1.runFrom p.2 := by
  unfold resolve
  cases hb : b.expectation with
  | any => rfl
  | header construct span =>
    refine runFrom_openAhead (fun token => ?_) (fun ending => ?_) tokens
    · rw [feed, hb]
    · rw [settle, hb]
  | params name keyword span =>
    refine runFrom_openAhead (fun token => ?_) (fun ending => ?_) tokens
    · rw [feed, hb]
    · rw [settle, hb]
  | function keyword span =>
    rcases runFrom_cases tokens with ⟨ending, hrun, hword, hspan⟩ | ⟨token, rest, rfl, hrun⟩
    · rw [hrun, finish, settle, hb, hword, Option.filter_none]
      simp only [openAhead, hword, hspan]
      rfl
    · rw [hrun, feed, hb, show (wordAhead (token :: rest)).filter isIdentifier = nameOf? token from rfl]
      simp only [functionToken]
      cases hname : nameOf? token with
      | some name =>
        simp only [start, bind_assoc, (nameOf?_eq_some hname).1]
        refine bind_congr fun b' => ?_
        refine runFrom_openAhead (fun _ => rfl) (fun _ => rfl) rest
      | none =>
        simp only [openAt, openAhead]
        by_cases hparen : token.kind = .word "("
        · rw [if_pos hparen, if_pos (wordAhead_cons.2 hparen), hparen]
          rfl
        · rw [if_neg hparen, if_neg (mt wordAhead_cons.1 hparen)]
          rfl
  | body head anonymous close =>
    by_cases hword : wordAhead tokens = some "\x7b"
    · simp only [if_pos hword]
      rfl
    · simp only [if_neg hword]
      rcases runFrom_cases tokens with ⟨ending, hrun, -, hspan⟩ | ⟨token, rest, rfl, hrun⟩
      · rw [hrun, finish, settle, hb, hspan]
        rfl
      · rw [hrun, feed, hb]
        simp only [bodyToken]
        rw [if_pos (mt wordAhead_cons.2 hword)]
        rfl
  | target decl span =>
    rcases runFrom_cases tokens with ⟨ending, hrun, hword, hspan⟩ | ⟨token, rest, rfl, hrun⟩
    · rw [hrun, finish, settle, hb, hword, Option.filter_none]
      simp only [hspan]
      rfl
    · rw [hrun, feed, hb, show (wordAhead (token :: rest)).filter isIdentifier = nameOf? token from rfl]
      simp only [targetToken]
      cases hname : nameOf? token with
      | some name =>
        simp only [ok_bind, (nameOf?_eq_some hname).1]
        rw [runFrom_declareAhead rfl, declareAhead_expect]
        rfl
      | none => rfl
  | initializer decl name span => exact runFrom_declareAhead hb tokens
  | otherwise =>
    by_cases hword : wordAhead tokens = some "else"
    · simp only [if_pos hword, ok_bind]
      rcases runFrom_cases tokens with ⟨ending, -, hnone, -⟩ | ⟨token, rest, rfl, hrun⟩
      · rw [hnone] at hword
        cases hword
      · rw [hrun, hrun, feed, hb]
        simp only [otherwiseToken]
        rw [if_pos (wordAhead_cons.1 hword)]
        rfl
    · simp only [if_neg hword, bind_assoc]
      refine runFrom_settle (settles_tryLevel Level.closeLine) (fun _ => ?_) fun token rest heq => ?_
      · rw [settle, hb]
      · subst heq
        rw [feed, hb]
        simp only [otherwiseToken]
        rw [if_neg (mt wordAhead_cons.2 hword)]

end Builder

end SlotScript
