import SlotScript.Proofs.Tree.Fed
import SlotScript.Proofs.Tree.Unit

/-!
# What a token can do

A token that meets no expectation does one of a few things, and which of them depends on the token and
the one before it alone (`exists_act`). A proof about all tokens is a proof about each `Act`.
-/

namespace SlotScript

namespace TokenKind

/-- Whether the token starts a statement or goes on with one. -/
def startsStatement : TokenKind → Bool
  | .word text =>
    match Role.ofWord text with
    | .openBrace | .construct _ | .otherwise | .declare _ => true
    | _ => false
  | _ => false

/-- Whether the token is the keyword of a function. -/
def startsFunction : TokenKind → Bool
  | .word text => Role.ofWord text == .function
  | _ => false

/-- Whether the token, after the one before it, is an operator between two operands. -/
def isInfix (previous : Previous) : TokenKind → Bool
  | .word text =>
    match Role.ofWord text with
    | .binary _ | .compound _ => true
    | .minus => previous.endsOperand
    | _ => false
  | _ => false

end TokenKind

/-- Whether a function's name, or its parameters, come next. -/
def Expectation.isFunction : Expectation → Bool
  | .function .. => true
  | _ => false

/-- Whether the node is a block or an assignment, which no expression is. -/
def Node.isStatement : Node → Bool
  | .block .. | .assign _ _ .plain none _ _ => true
  | _ => false

theorem Run.isStatement_of_headRedex {run rest : Run} {p : Nat} {node : Node}
    (h : headRedex run = some (p, .ok node, rest)) : node.isStatement = false := by
  cases makes_of_headRedex h <;> rfl

/-- No fold makes a block or an assignment. -/
theorem Run.isStatement_of_assemble {run : Run} {node : Node} (h : assemble run = .ok node)
    (hrun : ∀ operand, .operand operand ∈ run → operand.isStatement = false) :
    node.isStatement = false := by
  revert hrun
  refine assemble_ok_induction (motive := fun run node =>
    (∀ operand, .operand operand ∈ run → operand.isStatement = false) →
      node.isStatement = false) (fun node hrun => hrun node (by simp)) ?_ h
  intro run p after node hreduce ih hrun
  obtain ⟨i, out, rest, hhead, hout, -⟩ := reduce_eq_some hreduce
  cases out with
  | error e => cases hout
  | ok x =>
    obtain rfl : after = run.take i ++ .operand x :: rest := by simpa [Except.map] using hout
    refine ih fun operand hoperand => ?_
    rcases List.mem_append.mp hoperand with hmem | hmem
    · exact hrun operand (List.mem_of_mem_take hmem)
    · rcases List.mem_cons.mp hmem with heq | hmem
      · rw [RunItem.operand.inj heq]
        exact isStatement_of_headRedex hhead
      · exact hrun operand (List.mem_of_mem_drop ((headRedex_mem hhead).2 hmem))

namespace Builder

/-- What a token that meets no expectation can do. -/
inductive Act (previous : Previous) (token : Token) : (Builder → Except BuildError Builder) → Prop
  | operand (node : Node) (h : node.isStatement = false) :
      Act previous token fun b => .ok (b.operand node)
  | operator (op : Operator) (base : Nat) (hbase : base ≤ 200)
      (h : op.isInfix = token.kind.isInfix previous) :
      Act previous token fun b => .ok (b.operator op base token.span)
  | openParen (h : token.kind = .word "(") :
      Act previous token fun b => .ok (b.openParen previous token.span)
  | closeParen (h : token.kind = .word ")") : Act previous token (·.closeParen token.span)
  | closeBrace (h : token.kind = .word "\x7d") : Act previous token (·.closeBrace token.span)
  | comma : Act previous token (·.comma token.span)
  | equals (h : token.kind = .word "=") : Act previous token (·.equals token.span)
  | semicolon (h : token.kind = .separator) : Act previous token (·.semicolon token.span)
  | function (keyword : String) (h : token.kind.startsFunction = true) :
      Act previous token fun b => .ok (b.expect (.function keyword token.span))
  | openBrace (h : token.kind = .word "\x7b") : Act previous token (·.openBrace token.span)
  | start (expectation : Expectation) (h : token.kind.startsStatement = true)
      (hfunction : expectation.isFunction = false) (hotherwise : expectation ≠ .otherwise) :
      Act previous token (·.start expectation)
  | otherwise (h : token.kind.startsStatement = true) : Act previous token (·.otherwise token.span)
  | nothing (h : token.kind = .eof) : Act previous token .ok
  | fails (e : BuildError) : Act previous token fun _ => .error e

theorem eq_of_ofWord {text word : String} {role : Role}
    (h : Role.ofWord text = role) (hfixed : ∀ entry ∈ Role.fixed, entry.2 = role → entry.1 = word)
    (hspelled : ¬ role.Spelled text) : text = word := by
  subst h
  rcases Role.spelled_ofWord text with hmem | ⟨-, hspelled'⟩
  · exact hfixed _ hmem rfl
  · exact absurd hspelled' hspelled

/-- Every token does one of these things. -/
theorem exists_act (previous : Previous) (token : Token) :
    ∃ act, Act previous token act ∧ ∀ b, b.handle previous token = act b := by
  rcases token with ⟨kind, span⟩
  cases kind with
  | int value => exact ⟨_, .operand (.int value span) rfl, fun _ => rfl⟩
  | float bits => exact ⟨_, .operand (.float bits span) rfl, fun _ => rfl⟩
  | literal text => exact ⟨_, .operand (.str text span) rfl, fun _ => rfl⟩
  | separator => exact ⟨_, .semicolon rfl, fun _ => rfl⟩
  | eof => exact ⟨_, .nothing rfl, fun _ => rfl⟩
  | word text =>
    have hword : ∀ act, Act previous ⟨.word text, span⟩ act → (∀ b, b.word previous text span = act b) →
        ∃ act, Act previous ⟨.word text, span⟩ act ∧
          ∀ b, b.handle previous ⟨.word text, span⟩ = act b := fun act h heq => ⟨act, h, heq⟩
    cases hrole : Role.ofWord text with
    | openParen =>
      obtain rfl : text = "(" := eq_of_ofWord hrole (by decide) (by simp [Role.Spelled])
      exact ⟨_, .openParen rfl, fun _ => by rfl⟩
    | closeParen =>
      obtain rfl : text = ")" := eq_of_ofWord hrole (by decide) (by simp [Role.Spelled])
      exact ⟨_, .closeParen rfl, fun _ => by rfl⟩
    | openBrace =>
      obtain rfl : text = "\x7b" := eq_of_ofWord hrole (by decide) (by simp [Role.Spelled])
      exact ⟨_, .openBrace rfl, fun _ => by rfl⟩
    | closeBrace =>
      obtain rfl : text = "\x7d" := eq_of_ofWord hrole (by decide) (by simp [Role.Spelled])
      exact ⟨_, .closeBrace rfl, fun _ => by rfl⟩
    | comma => exact hword _ .comma fun b => by rw [word, hrole]
    | equals =>
      obtain rfl : text = "=" := eq_of_ofWord hrole (by decide) (by simp [Role.Spelled])
      exact ⟨_, .equals rfl, fun _ => by rfl⟩
    | construct construct =>
      exact hword _ (.start (.header construct span) (by simp [TokenKind.startsStatement, hrole]) rfl (by simp))
        fun b => by rw [word, hrole]
    | otherwise =>
      exact hword _ (.otherwise (by simp [TokenKind.startsStatement, hrole]))
        fun b => by rw [word, hrole]
    | function =>
      exact hword _ (.function text (by simp [TokenKind.startsFunction, hrole]))
        fun b => by rw [word, hrole]
    | declare decl =>
      exact hword _ (.start (.target decl span) (by simp [TokenKind.startsStatement, hrole]) rfl (by simp))
        fun b => by rw [word, hrole]
    | ret =>
      exact hword _ (.operator .ret returnPrecedence (by decide)
        (by simp [TokenKind.isInfix, hrole, Operator.isInfix])) fun b => by rw [word, hrole]
    | breakLoop => exact hword _ (.operand (.breakLoop span) rfl) fun b => by rw [word, hrole]
    | continueLoop => exact hword _ (.operand (.continueLoop span) rfl) fun b => by rw [word, hrole]
    | bool value => exact hword _ (.operand (.bool value span) rfl) fun b => by rw [word, hrole]
    | null => exact hword _ (.operand (.null span) rfl) fun b => by rw [word, hrole]
    | unsupported => exact hword _ (.fails _) fun b => by rw [word, hrole]
    | minus =>
      cases hends : previous.endsOperand with
      | true =>
        exact hword _ (.operator (.binary .sub) BinaryOp.sub.precedence (by decide)
          (by simp [TokenKind.isInfix, hrole, hends, Operator.isInfix]))
          fun b => by rw [word, hrole]; simp only [hends, if_true]
      | false =>
        exact hword _ (.operator (.unary .neg) UnaryOp.neg.precedence (by decide)
          (by simp [TokenKind.isInfix, hrole, hends, Operator.isInfix]))
          fun b => by rw [word, hrole]; simp [hends]
    | unary op =>
      exact hword _ (.operator (.unary op) op.precedence (by cases op <;> decide)
        (by simp [TokenKind.isInfix, hrole, Operator.isInfix])) fun b => by rw [word, hrole]
    | binary op =>
      exact hword _ (.operator (.binary op) op.precedence (by cases op <;> decide)
        (by simp [TokenKind.isInfix, hrole, Operator.isInfix])) fun b => by rw [word, hrole]
    | compound op =>
      exact hword _ (.operator (.compound op) compoundPrecedence (by decide)
        (by simp [TokenKind.isInfix, hrole, Operator.isInfix])) fun b => by rw [word, hrole]
    | name => exact hword _ (.operand (.ident text .unresolved span) rfl) fun b => by rw [word, hrole]
    | unknown => exact hword _ (.fails _) fun b => by rw [word, hrole]

variable {b b' : Builder} {previous : Previous} {span : Span}

/-- A `(` stands behind something that it calls, or else it opens a group. -/
theorem called_or_grouped (previous : Previous) (run : Run) :
    (∃ callee rest, run = .operand callee :: rest ∧ previous.isCallable = true) ∨
      ∀ callee rest, run = .operand callee :: rest → previous.isCallable = false := by
  cases previous.isCallable with
  | false => exact Or.inr fun _ _ _ => rfl
  | true =>
    by_cases h : ∃ callee rest, run = .operand callee :: rest
    · obtain ⟨callee, rest, hrun⟩ := h
      exact Or.inl ⟨callee, rest, hrun, rfl⟩
    · exact Or.inr fun callee rest hrun => absurd ⟨callee, rest, hrun⟩ h

theorem openParen_call {callee : Node} {run : Run} (hrun : b.level.run = .operand callee :: run)
    (hcallable : previous.isCallable = true) :
    b.openParen previous span = (b.mapLevel fun level => { level with run := run }).push
      (.call callee) (callee.span.merge span) := by
  rw [openParen, hrun, hcallable]

theorem openParen_group
    (h : ∀ callee run, b.level.run = .operand callee :: run → previous.isCallable = false) :
    b.openParen previous span =
      b.mapLevel fun level => { level with groups := span :: level.groups } := by
  rw [openParen]
  split
  · rename_i callee run hrun hcallable
    rw [h callee run hrun] at hcallable
    cases hcallable
  · rfl

theorem closeParen_group {opening : Span} {groups : List Span}
    (h : b.level.groups = opening :: groups) :
    b.closeParen span = .ok (b.mapLevel fun level => { level with groups := groups }) := by
  rw [closeParen, h]

/-- What a `)` closes, and what that leaves: a group, or the innermost frame. -/
inductive ClosesParen (b : Builder) : Builder → Prop
  | group {opening : Span} {groups : List Span} (h : b.level.groups = opening :: groups) :
    ClosesParen b (b.mapLevel fun level => { level with groups := groups })
  | call {callee : Node} {place : Span} {level : Level} (outer : List Frame)
    (hframes : b.frames = ⟨.call callee, place, level⟩ :: outer) (hgroups : level.groups = []) (node : Node) :
    ClosesParen b { { b with frames := outer }.mapLevel (·.operand node) with previous := .closedCall }
  | header {construct : Construct} {place close : Span} {level : Level} {parts : List (Option Node)}
    {item : Item} (outer : List Frame)
    (hframes : b.frames = ⟨.header construct, place, level⟩ :: outer) (hgroups : level.groups = [])
    (hitem : headerItem construct place close parts = .ok item) :
    ClosesParen b { { b with frames := outer }.mapLevel (·.item item) with previous := .closedHeader }
  | params {name : String} {anonymous : Bool} {place : Span} {level : Level} (outer : List Frame)
    (hframes : b.frames = ⟨.params name anonymous, place, level⟩ :: outer) (hgroups : level.groups = [])
    (head : FunctionHead) (close : Span) :
    ClosesParen b ({ b with frames := outer }.expect (.body head anonymous close))

theorem closesParen (h : b.closeParen span = .ok b') : b.ClosesParen b' := by
  rcases closeParen_eq_ok h with
    ⟨opening, groups, hgroups, rfl⟩ | ⟨opener, place, level, outer, hgroups, hframes, h⟩
  · exact .group hgroups
  · rw [Builder.level, hframes] at hgroups
    rcases h with ⟨callee, rfl, h⟩ | ⟨construct, rfl, h⟩ | ⟨name, unnamed, rfl, h⟩
    · obtain ⟨closed, -, h⟩ := bind_eq_ok_iff.mp h
      obtain ⟨args, -, h⟩ := bind_eq_ok_iff.mp h
      obtain rfl := pure_eq_ok_iff.mp h
      exact .call outer hframes hgroups _
    · obtain ⟨closed, -, h⟩ := bind_eq_ok_iff.mp h
      obtain ⟨item, hitem, h⟩ := bind_eq_ok_iff.mp h
      obtain rfl := pure_eq_ok_iff.mp h
      exact .header outer hframes hgroups hitem
    · obtain ⟨closed, -, h⟩ := bind_eq_ok_iff.mp h
      obtain ⟨parts, -, h⟩ := bind_eq_ok_iff.mp h
      obtain ⟨params, -, h⟩ := bind_eq_ok_iff.mp h
      obtain rfl := pure_eq_ok_iff.mp h
      exact .params outer hframes hgroups _ _

/-- What a `\x7d` closes, and what that leaves: a block, or the body of a function that is a value. -/
inductive ClosesBrace (b : Builder) : Builder → Prop
  | block {place : Span} {level : Level} (outer : List Frame)
    (hframes : b.frames = ⟨.block none, place, level⟩ :: outer) (hgroups : level.groups = [])
    (body : List Node) (span : Span) :
    ClosesBrace b (({ b with frames := outer }.mapLevel (·.item (.node (.block body span)))).expect .otherwise)
  | function {head : FunctionHead} {place : Span} {level : Level} (outer : List Frame)
    (hframes : b.frames = ⟨.block (some head), place, level⟩ :: outer) (hgroups : level.groups = [])
    (node : Node) : ClosesBrace b ({ b with frames := outer }.mapLevel (·.operand node))

theorem closesBrace (h : b.closeBrace span = .ok b') : b.ClosesBrace b' := by
  obtain ⟨head, place, level, outer, hgroups, hframes, h⟩ := closeBrace_eq_ok h
  rw [Builder.level, hframes] at hgroups
  obtain ⟨closed, -, h⟩ := bind_eq_ok_iff.mp h
  cases head with
  | none =>
    obtain rfl := pure_eq_ok_iff.mp h
    exact .block outer hframes hgroups _ _
  | some head =>
    obtain ⟨node, -, h⟩ := bind_eq_ok_iff.mp h
    obtain rfl := pure_eq_ok_iff.mp h
    exact .function outer hframes hgroups node

end Builder

namespace Level

variable {level after : Level}

theorem closeExpression_groups (h : level.closeExpression = .ok after) :
    after.groups = level.groups := by
  rcases closeExpression_eq_ok h with ⟨-, rfl⟩ | ⟨node, -, rfl⟩ <;> rfl

theorem closeLine_groups (h : level.closeLine = .ok after) : after.groups = level.groups := by
  obtain ⟨closed, line, hclosed, -, rfl⟩ := closeLine_eq_ok h
  have hgroups : closed.groups = level.groups := closeExpression_groups hclosed
  exact hgroups

theorem closePart_groups (h : level.closePart = .ok after) : after.groups = level.groups := by
  obtain ⟨closed, part, hclosed, -, rfl⟩ := closePart_eq_ok h
  have hgroups : closed.groups = level.groups := closeLine_groups hclosed
  exact hgroups

end Level

end SlotScript
