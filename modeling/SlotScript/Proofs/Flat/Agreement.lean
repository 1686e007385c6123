import SlotScript.Proofs.Flat.Simulation
import SlotScript.Proofs.Tree.Act

/-!
# The two builders agree

A step of the machine does what feeding the token does, and settles at once what the builder settles
with the next token. By induction over the rounds, the machine does what the builder does on every
list of tokens that is not too long, and it does not crash.
-/

namespace SlotScript.Flat

section

variable {m : Machine} {b : Builder}

theorem word_refines (ht : Tracks .due m b) (hb : b.expectation = .any) {previous : Previous}
    (hoperand : m.followsOperand = previous.endsOperand)
    (hcallable : m.followsCallable = previous.isCallable) {text : String}
    (hprevious : b.previous = .token (.word text)) (span : Span) :
    Refines (Settled m) (m.word text span)
      (b.word previous text span >>= (·.resolve m.rest)) := by
  rw [Machine.word, Builder.word]
  cases hrole : Role.ofWord text with
  | openParen => exact (openParen_refines ht hb hcallable span).settled
  | closeParen =>
    obtain rfl : text = ")" := Builder.eq_of_ofWord hrole (by decide) (by simp [Role.Spelled])
    exact closeParen_refines ht hb hprevious span
  | openBrace => exact (openBrace_refines ht hb span).settled
  | closeBrace => exact closeBrace_refines ht hb span
  | comma => exact (comma_refines ht hb span).settled
  | equals => exact (equals_refines ht hb span).settled
  | construct construct => exact construct_refines ht hb construct span
  | otherwise => exact (otherwise_refines ht hb span).settled
  | function => exact function_refines ht hb text span
  | declare decl => exact declare_refines ht hb decl span
  | ret => exact (operator_refines ht hb .ret returnPrecedence span).settled
  | breakLoop => exact (operand_refines ht hb rfl rfl).settled
  | continueLoop => exact (operand_refines ht hb rfl rfl).settled
  | bool value => exact (operand_refines ht hb rfl rfl).settled
  | null => exact (operand_refines ht hb rfl rfl).settled
  | unsupported => exact .fault _
  | minus =>
    simp only [hoperand]
    cases previous.endsOperand with
    | true => exact (operator_refines ht hb (.binary .sub) BinaryOp.sub.precedence span).settled
    | false => exact (operator_refines ht hb (.unary .neg) UnaryOp.neg.precedence span).settled
  | unary op => exact (operator_refines ht hb (.unary op) op.precedence span).settled
  | binary op => exact (operator_refines ht hb (.binary op) op.precedence span).settled
  | compound op => exact (operator_refines ht hb (.compound op) compoundPrecedence span).settled
  | name => exact (operand_refines ht hb rfl rfl).settled
  | unknown => exact .fault _

/-- A token that meets no expectation. -/
theorem handle_refines (ht : Tracks .due m b) (hb : b.expectation = .any) {previous : Previous}
    (hoperand : m.followsOperand = previous.endsOperand)
    (hcallable : m.followsCallable = previous.isCallable) {token : Token}
    (hprevious : b.previous = .token token.kind) :
    Refines (Settled m) (m.step token) (b.handle previous token >>= (·.resolve m.rest)) := by
  rcases token with ⟨kind, span⟩
  cases kind with
  | int value => exact (operand_refines ht hb rfl rfl).settled
  | float bits => exact (operand_refines ht hb rfl rfl).settled
  | literal text => exact (operand_refines ht hb rfl rfl).settled
  | separator => exact (semicolon_refines ht hb span).settled
  | eof =>
    rw [← add_zero Holding.due] at ht
    exact Refines.settled (.ok ⟨ht.forget, rfl, hb⟩)
  | word text => exact word_refines ht hb hoperand hcallable hprevious span

/-- Reading a token does the same to the machine and to the builder. -/
theorem step_refines (ht : Tracks 0 m b) {token : Token} {rest : List Token}
    (hrest : m.rest = token :: rest) (hb : Ready b m.rest) :
    Refines (Settled m.next) (m.next.step token) (b.feed token >>= (·.resolve rest)) := by
  have hnext := ht.next hrest
  have hrest' : m.next.rest = rest := by rw [Machine.next, hrest]
  rw [zero_add] at hnext
  rw [← hrest', Builder.feed]
  rcases hb with hb | ⟨⟨head, anonymous, close, hb⟩, hbrace⟩
  · simp only [hb]
    rw [← hb]
    exact handle_refines hnext hb (ht.preceded.followsOperand hrest)
      (ht.preceded.followsCallable hrest) rfl
  · rw [hrest, wordAhead_cons] at hbrace
    have hrole : Role.ofWord "\x7b" = .openBrace := by decide
    have hstep : m.next.step token = m.next.openBrace token.span := by
      rw [Machine.step, hbrace]
      simp only [Machine.word, hrole]
    rw [hstep]
    simp only [hb]
    exact (openBody_refines hnext hb hbrace).settled

/-- The arena has the program's trees, and no two of them share an entry. -/
def Layout.Stores (layout : Layout) (program : Program) : Prop :=
  program.shape = .blank ∧ ∃ links, stretch? layout.arena.links layout.body = some links ∧
    links.mapM layout.arena.tree? = some program.body ∧
    (↑(links.flatMap layout.arena.cells) : Multiset Nat) ≤
      Multiset.range layout.arena.entries.length

theorem finish_refines {spare : Holding} (hs : Stacked spare none m b)
    (htokens : m.read < tokenLimit) (hb : b.expectation = .any) (ending : Option Span) :
    Refines Layout.Stores m.finish (b.finish ending) := by
  rw [Machine.finish, Machine.top, Builder.finish, Builder.settle, hb, ok_bind]
  obtain ⟨h, hframes, hc⟩ := hs
  generalize hm : m.frames = frames at hframes
  generalize hb' : b.frames = frames' at hframes
  cases hframes with
  | @cons _ hk hl h frame opener level outer outer' hkind hlevel hwaits houter =>
    rw [ok_bind, if_pos (by rw [List.length_cons, houter.length_eq]; omega), hkind.opener_eq]
    exact .fault _
  | @root _ h frame hkind hlevel =>
    rw [ok_bind, if_neg (by simp), hlevel.level.groups_eq]
    cases b.root.groups with
    | cons opening groups => exact .fault _
    | nil =>
      rw [tryTop_pop hm]
      refine (closeLine_refines htokens hlevel.level hc).bind ?_
      rintro ⟨closed, a⟩ closed' ⟨hg, h, ⟨hclosed, -⟩, hc⟩
      obtain @⟨hr, hi, hl, hp, kind, span, loose, run, items, items', lines, lines', parts, parts',
        groups, -, -, hlines, -⟩ := hclosed
      refine (Arena.allocLinks_refines htokens hlines.reverse (hc.of_eq (by abel) :
        a.Covers m.read (hl + (hr + hi + hp + spare)))).bind_left ?_
      rintro ⟨range, a'⟩ ⟨-, h, ⟨links, hlinks, hnodes, rfl⟩, hc'⟩
      exact .ok ⟨rfl, links, hlinks, hnodes, le_self_add.trans hc'.cells⟩

end

/-! ## Whole runs -/

/-- At the end of the tokens there is no brace to come. -/
theorem Ready.expectation {b : Builder} {tokens : List Token} (hb : Ready b tokens)
    (htokens : wordAhead tokens = none) : b.expectation = .any := by
  rcases hb with hb | ⟨-, hbrace⟩
  · exact hb
  · rw [htokens] at hbrace
    cases hbrace

theorem runIn_refines {m : Machine} {b : Builder} (rounds : Nat) (ht : Tracks 0 m b)
    (hb : Ready b m.rest) (hrounds : m.rest.length ≤ rounds) :
    Refines Layout.Stores (runIn rounds m) (b.runFrom m.rest) := by
  fun_induction runIn rounds m generalizing b with
  | case1 rounds m hrest =>
    rw [hrest] at hb ⊢
    have hany := hb.expectation rfl
    exact finish_refines (ht.stacked_any hany) ht.read_lt hany none
  | case2 m token rest hrest =>
    rw [hrest] at hrounds
    cases hrounds
  | case3 m rounds token rest hrest heof =>
    have hnext := ht.next hrest
    have hany : b.expectation = .any := by
      refine hb.expectation ?_
      rw [hrest, wordAhead, List.head?_cons, Option.bind_some, heof]
      rfl
    have hs : Stacked (0 + .due) none m.next b := hnext.stacked_any hany
    rw [hrest, b.runFrom_eof heof]
    exact finish_refines hs hnext.read_lt hany _
  | case4 m rounds token rest hrest heof ih =>
    have hstep := step_refines ht hrest hb
    have hlength : m.next.rest.length ≤ rounds := by
      rw [hrest, List.length_cons] at hrounds
      rw [Machine.next, hrest]
      exact Nat.le_of_succ_le_succ hrounds
    have hrun : b.runFrom m.rest =
        (b.feed token >>= (·.resolve rest)) >>= fun p => p.1.runFrom p.2 := by
      rw [hrest, b.runFrom_cons heof, bind_assoc]
      exact bind_congr fun b' => b'.runFrom_resolve rest
    rw [hrun]
    refine hstep.bind fun m' p hsettled => ?_
    obtain ⟨ht', hrest', hle, hready⟩ := hsettled
    rw [← hrest'] at hready hle ⊢
    exact ih m' ht' hready (hle.trans hlength)

theorem tracks_start {tokens : List Token} (htokens : tokens.length < tokenLimit) :
    Tracks 0 { frames := [{ kind := .root, span := ⟨0, 0⟩ }], rest := tokens } {} where
  stacked := ⟨0, .root rfl (.none (heldLevel_empty _ _ _)), Multiset.zero_le _, Nat.le_refl _⟩
  preceded := ⟨rfl, by simp, by simp, by simp, by simp⟩
  anonymous := rfl
  limit := by simpa using htokens

/-- Both builders make the same of every list of tokens, and the one in the arena does not crash. -/
theorem build_refines {tokens : List Token} (htokens : tokens.length < tokenLimit) :
    Refines Layout.Stores (build tokens) (Program.ofTokens tokens) := by
  rw [Builder.ofTokens_eq_runFrom]
  exact runIn_refines tokens.length (tracks_start htokens) (.inl rfl) (Nat.le_refl _)

end SlotScript.Flat
