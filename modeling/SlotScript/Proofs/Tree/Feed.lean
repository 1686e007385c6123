import SlotScript.Proofs.Tree.Steps
import SlotScript.Proofs.Tree.Bare

/-!
# What the builder does with each token

How the builder goes on when the tokens are those of a well-formed program. A builder is written
as `b.placed level expectation previous k`: somewhere in the builder `b` stands the innermost
level, and the rest is what is remembered from token to token. Opening a delimiter goes from
`b.placed` to `(b.inside level opener).placed`, and closing it goes back.

`Feeds b kinds b'` says that reading tokens of the given kinds leads from `b` to `b'`. There is
one lemma for each kind of token and each of its meanings. Positions do not matter, so every token
stands nowhere.
-/

namespace SlotScript

/-! ## Words of a written program -/

namespace Role

/-- A word that can name a variable does so. -/
theorem ofWord_of_isIdentifier {text : String} (h : isIdentifier text = true) :
    ofWord text = .name := by
  have hreserved : isReserved text = false := by
    simp only [isIdentifier, Bool.and_eq_true, Bool.not_eq_true'] at h
    exact h.2
  have hunary : UnaryOp.ofSymbol? text = none := by
    unfold UnaryOp.ofSymbol?
    split
    · rename_i heq
      obtain rfl : text = UnaryOp.not.symbol := by simpa using heq
      exact absurd h (by decide)
    · rfl
  have hbinary : BinaryOp.ofSymbol? text = none := by
    have hsymbols : ∀ op ∈ BinaryOp.all, isIdentifier op.symbol = false := by decide
    refine List.find?_eq_none.mpr fun op hop heq => ?_
    obtain rfl : op.symbol = text := by simpa using heq
    rw [hsymbols op hop] at h
    cases h
  have hcompound : BinaryOp.ofCompoundSymbol? text = none := by
    have hsymbols : ∀ op ∈ BinaryOp.compounds, isIdentifier op.compoundSymbol = false := by decide
    refine List.find?_eq_none.mpr fun op hop heq => ?_
    obtain rfl : op.compoundSymbol = text := by simpa using heq
    rw [hsymbols op hop] at h
    cases h
  simp [ofWord, lookup_of_isIdentifier h, hreserved, hunary, hbinary, hcompound, h]

theorem ofWord_symbol (op : BinaryOp) :
    ofWord op.symbol = if op = .sub then .minus else .binary op := by
  cases op <;> decide

theorem ofWord_compoundSymbol {op : BinaryOp} (h : op ∈ BinaryOp.compounds) :
    ofWord op.compoundSymbol = .compound op := by
  have hall : ∀ op ∈ BinaryOp.compounds, ofWord op.compoundSymbol = .compound op := by decide
  exact hall op h

theorem ofWord_keyword (construct : Construct) :
    ofWord construct.keyword = .construct construct := by
  cases construct <;> decide

end Role

namespace Previous

theorem isCallable_eq_false {previous : Previous} (h : previous.endsOperand = false) :
    previous.isCallable = false := by
  cases previous with
  | closedCall => cases h
  | token kind =>
    cases kind with
    | word text =>
      simp only [endsOperand, wordEndsOperand, Bool.or_eq_false_iff] at h
      exact h.2
    | _ => rfl
  | _ => rfl

theorem endsOperand_of_isIdentifier {text : String} (h : isIdentifier text = true) :
    (token (.word text)).endsOperand = true := by
  simp [endsOperand, wordEndsOperand, h]

theorem endsOperand_symbol (op : BinaryOp) : (token (.word op.symbol)).endsOperand = false := by
  cases op <;> decide

theorem endsOperand_unarySymbol (op : UnaryOp) :
    (token (.word op.symbol)).endsOperand = false := by
  cases op <;> decide

theorem endsOperand_compoundSymbol (op : BinaryOp) :
    (token (.word op.compoundSymbol)).endsOperand = false := by
  cases op <;> decide

end Previous

/-! ## Closing what is finished -/

namespace Level

variable {level closed : Level}

theorem closeExpression_of_run_eq_nil (h : level.run = []) :
    level.closeExpression = .ok level := by
  rcases level with ⟨run, items, lines, parts, groups⟩
  obtain rfl : run = [] := h
  rfl

theorem closeExpression_of_assemble {node : Node} (h : Run.assemble level.run.reverse = .ok node) :
    level.closeExpression = .ok { level with run := [], items := .node node :: level.items } := by
  rcases level with ⟨_ | ⟨item, run⟩, items, lines, parts, groups⟩
  · rw [List.reverse_nil, Run.assemble_of_reduce_none rfl (by simp)] at h
    cases h
  · unfold closeExpression
    simp only [h, ok_bind]
    rfl

theorem closeLine_of_weld {line : Option Node} (hclosed : level.closeExpression = .ok closed)
    (hline : Line.weld closed.items = .ok line) :
    level.closeLine = .ok { closed with items := [], lines := line.toList ++ closed.lines } := by
  unfold closeLine
  simp only [hclosed, hline, ok_bind]
  rfl

/-- Closing a statement that is closed changes nothing. -/
theorem closeLine_of_closed (lines : List Node) (parts : List (Option Node)) (groups : List Span) :
    Level.closeLine ⟨[], [], lines, parts, groups⟩ = .ok ⟨[], [], lines, parts, groups⟩ := rfl

theorem closePart_of_closeLine (part : Option Node) {parts : List (Option Node)}
    (h : level.closeLine = .ok { lines := part.toList, parts := parts }) :
    level.closePart = .ok { parts := part :: parts } := by
  unfold closePart
  simp only [h, ok_bind]
  cases part <;> rfl

theorem listParts_map_some (missing : Missing) (close : Span) (nodes : List Node) :
    listParts missing close (nodes.map some) = .ok nodes := by
  rw [listParts_eq_mapM]
  · induction nodes with
    | nil => rfl
    | cons node rest ih =>
      rw [List.map_cons, List.mapM_cons, ih]
      rfl
  · rcases nodes with _ | ⟨node, rest⟩ <;> simp

end Level

/-! ## Builders by their innermost level -/

namespace Builder

/-- The builder with another innermost level, and other memories of what came before. -/
def placed (b : Builder) (level : Level) (expectation : Expectation) (previous : Previous)
    (anonymous : Nat) : Builder :=
  { b.setLevel level with
    expectation := expectation, previous := previous, anonymous := anonymous }

/-- The builder with another innermost level, and a delimiter opened in it. -/
def inside (b : Builder) (level : Level) (opener : Opener) : Builder :=
  (b.setLevel level).push opener .nowhere

/-- Tokens of the given kinds lead from one builder to another. -/
def Feeds (b : Builder) (kinds : List TokenKind) (b' : Builder) : Prop :=
  (kinds.map fun kind => (⟨kind, .nowhere⟩ : Token)).foldlM feed b = .ok b'

theorem Feeds.nil (b : Builder) : Feeds b [] b := rfl

theorem Feeds.append {b b' b'' : Builder} {kinds kinds' : List TokenKind} (h : Feeds b kinds b')
    (h' : Feeds b' kinds' b'') : Feeds b (kinds ++ kinds') b'' := by
  unfold Feeds at *
  rw [List.map_append, List.foldlM_append, h, ok_bind, h']

theorem Feeds.cons {b b' b'' : Builder} {kind : TokenKind} {kinds : List TokenKind}
    (h : Feeds b [kind] b') (h' : Feeds b' kinds b'') : Feeds b (kind :: kinds) b'' :=
  Feeds.append h h'

theorem feeds_single {b b' : Builder} {kind : TokenKind} :
    Feeds b [kind] b' ↔ b.feed ⟨kind, .nowhere⟩ = .ok b' := by
  simp [Feeds]

variable {b : Builder} {level closed : Level} {previous : Previous} {k : Nat}

@[simp] theorem level_placed (expectation : Expectation) :
    (b.placed level expectation previous k).level = level := by
  rcases b with ⟨root, _ | ⟨frame, outer⟩, expectation, previous, anonymous⟩ <;> rfl

@[simp] theorem setLevel_placed (expectation : Expectation) (level' : Level) :
    (b.placed level expectation previous k).setLevel level' =
      b.placed level' expectation previous k := by
  rcases b with ⟨root, _ | ⟨frame, outer⟩, expectation, previous, anonymous⟩ <;> rfl

@[simp] theorem mapLevel_placed (expectation : Expectation) (f : Level → Level) :
    (b.placed level expectation previous k).mapLevel f =
      b.placed (f level) expectation previous k := by
  simp [mapLevel]

theorem tryLevel_placed (expectation : Expectation) {f : Level → Except BuildError Level}
    (h : f level = .ok closed) :
    (b.placed level expectation previous k).tryLevel f =
      .ok (b.placed closed expectation previous k) := by
  rw [tryLevel, level_placed, h, ok_bind, setLevel_placed]
  rfl

/-! ## Operands and operators -/

theorem feeds_int (value : Int64) :
    Feeds (b.placed level .any previous k) [.int value]
      (b.placed (level.operand (.int value .nowhere)) .any (.token (.int value)) k) := by
  refine feeds_single.mpr (congrArg Except.ok (?_ : Builder.operand (b.placed level .any _ k) _ = _))
  simp [operand]

theorem feeds_float (bits : UInt64) :
    Feeds (b.placed level .any previous k) [.float bits]
      (b.placed (level.operand (.float bits .nowhere)) .any (.token (.float bits)) k) := by
  refine feeds_single.mpr (congrArg Except.ok (?_ : Builder.operand (b.placed level .any _ k) _ = _))
  simp [operand]

theorem feeds_literal (text : String) :
    Feeds (b.placed level .any previous k) [.literal text]
      (b.placed (level.operand (.str text .nowhere)) .any (.token (.literal text)) k) := by
  refine feeds_single.mpr (congrArg Except.ok (?_ : Builder.operand (b.placed level .any _ k) _ = _))
  simp [operand]

/-- A word that meets no expectation is read by its role. -/
theorem feeds_word {text : String} {b' : Builder}
    (h : (b.placed level .any (.token (.word text)) k).word previous text .nowhere = .ok b') :
    Feeds (b.placed level .any previous k) [.word text] b' :=
  feeds_single.mpr h

theorem feeds_bool (value : Bool) :
    Feeds (b.placed level .any previous k) [.word (if value then "true" else "false")]
      (b.placed (level.operand (.bool value .nowhere)) .any
        (.token (.word (if value then "true" else "false"))) k) := by
  have hrole : Role.ofWord (if value then "true" else "false") = .bool value := by
    cases value <;> decide
  exact feeds_word (by simp [word, hrole, operand])

theorem feeds_null :
    Feeds (b.placed level .any previous k) [.word "null"]
      (b.placed (level.operand (.null .nowhere)) .any (.token (.word "null")) k) := by
  have hrole : Role.ofWord "null" = .null := by decide
  exact feeds_word (by simp [word, hrole, operand])

theorem feeds_break :
    Feeds (b.placed level .any previous k) [.word "break"]
      (b.placed (level.operand (.breakLoop .nowhere)) .any (.token (.word "break")) k) := by
  have hrole : Role.ofWord "break" = .breakLoop := by decide
  exact feeds_word (by simp [word, hrole, operand])

theorem feeds_continue :
    Feeds (b.placed level .any previous k) [.word "continue"]
      (b.placed (level.operand (.continueLoop .nowhere)) .any (.token (.word "continue")) k) := by
  have hrole : Role.ofWord "continue" = .continueLoop := by decide
  exact feeds_word (by simp [word, hrole, operand])

theorem feeds_name {name : String} (h : isIdentifier name = true) :
    Feeds (b.placed level .any previous k) [.word name]
      (b.placed (level.operand (.ident name .unresolved .nowhere)) .any (.token (.word name)) k) :=
  feeds_word (by simp [word, Role.ofWord_of_isIdentifier h, operand])

/-- Behind an operand every symbol of a binary operator means it. -/
theorem feeds_binary (op : BinaryOp) (h : previous.endsOperand = true) :
    Feeds (b.placed level .any previous k) [.word op.symbol]
      (b.placed (level.operator (.binary op) op.precedence .nowhere) .any
        (.token (.word op.symbol)) k) := by
  refine feeds_word ?_
  rw [word, Role.ofWord_symbol]
  by_cases hsub : op = .sub
  · subst hsub
    simp [h, operator]
  · simp [hsub, operator]

/-- Where no operand ends every symbol of a unary operator means it. -/
theorem feeds_unary (op : UnaryOp) (h : previous.endsOperand = false) :
    Feeds (b.placed level .any previous k) [.word op.symbol]
      (b.placed (level.operator (.unary op) op.precedence .nowhere) .any
        (.token (.word op.symbol)) k) := by
  cases op with
  | not =>
    have hrole : Role.ofWord UnaryOp.not.symbol = .unary .not := by decide
    exact feeds_word (by simp [word, hrole, operator])
  | neg =>
    have hrole : Role.ofWord UnaryOp.neg.symbol = .minus := by decide
    exact feeds_word (by simp [word, hrole, h, operator])

theorem feeds_compound {op : BinaryOp} (h : op ∈ BinaryOp.compounds) :
    Feeds (b.placed level .any previous k) [.word op.compoundSymbol]
      (b.placed (level.operator (.compound op) compoundPrecedence .nowhere) .any
        (.token (.word op.compoundSymbol)) k) :=
  feeds_word (by simp [word, Role.ofWord_compoundSymbol h, operator])

theorem feeds_return :
    Feeds (b.placed level .any previous k) [.word "return"]
      (b.placed (level.operator .ret returnPrecedence .nowhere) .any
        (.token (.word "return")) k) := by
  have hrole : Role.ofWord "return" = .ret := by decide
  exact feeds_word (by simp [word, hrole, operator])

/-! ## Parentheses -/

theorem feeds_openGroup (h : previous.endsOperand = false) :
    Feeds (b.placed level .any previous k) [.word "("]
      (b.placed { level with groups := .nowhere :: level.groups } .any (.token (.word "(")) k) := by
  have hrole : Role.ofWord "(" = .openParen := by decide
  refine feeds_word ?_
  rw [word, hrole]
  simp [openParen, Previous.isCallable_eq_false h]

theorem feeds_closeGroup {groups : List Span} (h : level.groups = .nowhere :: groups) :
    Feeds (b.placed level .any previous k) [.word ")"]
      (b.placed { level with groups := groups } .any (.token (.word ")")) k) := by
  have hrole : Role.ofWord ")" = .closeParen := by decide
  refine feeds_word ?_
  rw [word, hrole]
  simp [closeParen, h]

theorem feeds_openCall {callee : Node} (hspan : callee.span = .nowhere)
    (h : previous.isCallable = true) :
    Feeds (b.placed (level.operand callee) .any previous k) [.word "("]
      ((b.inside level (.call callee)).placed {} .any (.token (.word "(")) k) := by
  have hrole : Role.ofWord "(" = .openParen := by decide
  refine feeds_word ?_
  rw [word, hrole]
  simp only [openParen, level_placed, Level.operand, h, mapLevel_placed, hspan,
    Span.nowhere_merge]
  rfl

theorem closeParen_inside {opener : Opener} {inner : Level} (hgroups : inner.groups = []) :
    ((b.inside level opener).placed inner .any previous k).closeParen .nowhere =
      let b := b.placed level .any previous k
      match opener with
      | .call callee => b.finishCall callee .nowhere .nowhere inner
      | .header construct => b.finishHeader construct .nowhere .nowhere inner
      | .params name anonymous => b.finishParams name anonymous .nowhere .nowhere inner
      | .block _ =>
        .error { fault := .mismatched '\x7d' ')', span := .nowhere, opened := some .nowhere } := by
  rcases inner with ⟨run, items, lines, parts, groups⟩
  obtain rfl : groups = [] := hgroups
  cases opener <;> rfl

theorem feeds_closeParen {opener : Opener} {inner : Level} {b' : Builder}
    (hgroups : inner.groups = [])
    (h : (let b := b.placed level .any (.token (.word ")")) k
      match opener with
      | .call callee => b.finishCall callee .nowhere .nowhere inner
      | .header construct => b.finishHeader construct .nowhere .nowhere inner
      | .params name anonymous => b.finishParams name anonymous .nowhere .nowhere inner
      | .block _ => .error
        { fault := .mismatched '\x7d' ')', span := .nowhere, opened := some .nowhere }) = .ok b') :
    Feeds ((b.inside level opener).placed inner .any previous k) [.word ")"] b' := by
  have hrole : Role.ofWord ")" = .closeParen := by decide
  refine feeds_word ?_
  rw [word, hrole]
  exact (closeParen_inside hgroups).trans h

theorem feeds_closeCall {callee : Node} {inner : Level} {parts : List (Option Node)}
    {args : List Node} (hgroups : inner.groups = [])
    (hclose : inner.closePart = .ok { parts := parts })
    (hargs : Level.listParts .argument .nowhere parts.reverse = .ok args) :
    Feeds ((b.inside level (.call callee)).placed inner .any previous k) [.word ")"]
      (b.placed (level.operand (.call callee args .nowhere)) .any .closedCall k) := by
  refine feeds_closeParen hgroups ?_
  simp only [finishCall, hclose, hargs, ok_bind, mapLevel_placed, Span.nowhere_merge]
  rfl

theorem feeds_closeHeader {construct : Construct} {inner : Level} {parts : List (Option Node)}
    {item : Item} (hgroups : inner.groups = [])
    (hclose : inner.closePart = .ok { parts := parts })
    (hitem : headerItem construct .nowhere .nowhere parts.reverse = .ok item) :
    Feeds ((b.inside level (.header construct)).placed inner .any previous k) [.word ")"]
      (b.placed (level.item item) .any .closedHeader k) := by
  refine feeds_closeParen hgroups ?_
  simp only [finishHeader, hclose, hitem, ok_bind, mapLevel_placed]
  rfl

theorem feeds_closeParams {name : String} {anonymous : Bool} {inner : Level}
    {parts : List (Option Node)} {nodes : List Node} {params : List Param}
    (hgroups : inner.groups = []) (hclose : inner.closePart = .ok { parts := parts })
    (hnodes : Level.listParts .parameter .nowhere parts.reverse = .ok nodes)
    (hparams : nodes.mapM paramOf = .ok params) :
    Feeds ((b.inside level (.params name anonymous)).placed inner .any previous k) [.word ")"]
      (b.placed level (.body ⟨name, params, .nowhere⟩ anonymous .nowhere)
        (.token (.word ")")) k) := by
  refine feeds_closeParen hgroups ?_
  simp only [finishParams, hclose, hnodes, hparams, ok_bind]
  rfl

/-! ## Heads of constructs, functions and assignments -/

theorem feeds_construct (construct : Construct) (hrun : level.run = []) :
    Feeds (b.placed level .any previous k) [.word construct.keyword]
      (b.placed level (.header construct .nowhere) (.token (.word construct.keyword)) k) := by
  refine feeds_word ?_
  simp only [word, Role.ofWord_keyword, start,
    tryLevel_placed .any (Level.closeExpression_of_run_eq_nil hrun), ok_bind]
  rfl

theorem feeds_openHeader (construct : Construct) :
    Feeds (b.placed level (.header construct .nowhere) previous k) [.word "("]
      ((b.inside level (.header construct)).placed {} .any (.token (.word "(")) k) :=
  feeds_single.mpr rfl

theorem feeds_def :
    Feeds (b.placed level .any previous k) [.word "def"]
      (b.placed level (.function "def" .nowhere) (.token (.word "def")) k) := by
  have hrole : Role.ofWord "def" = .function := by decide
  refine feeds_word ?_
  rw [word, hrole]
  rfl

theorem feeds_openAnonymous {keyword : String} :
    Feeds (b.placed level (.function keyword .nowhere) previous k) [.word "("]
      ((b.inside level (.params ("anon#" ++ toString k) true)).placed {} .any
        (.token (.word "(")) (k + 1)) := by
  have hname : nameOf? ⟨.word "(", .nowhere⟩ = none := by decide
  refine feeds_single.mpr (Eq.trans
    (rfl : _ = functionToken (b.placed level .any (.token (.word "(")) k) ⟨.word "(", .nowhere⟩
      keyword .nowhere) ?_)
  simp only [functionToken, hname]
  rfl

theorem nameOf?_word {name : String} (h : isIdentifier name = true) :
    nameOf? ⟨.word name, .nowhere⟩ = some name := by
  simp [nameOf?, TokenKind.word?, h]

theorem feeds_functionName {name keyword : String} (hname : isIdentifier name = true)
    (hrun : level.run = []) :
    Feeds (b.placed level (.function keyword .nowhere) previous k) [.word name]
      (b.placed level (.params name keyword .nowhere) (.token (.word name)) k) := by
  refine feeds_single.mpr (?_ : functionToken (b.placed level .any _ k) _ _ _ = _)
  simp only [functionToken, nameOf?_word hname, start,
    tryLevel_placed .any (Level.closeExpression_of_run_eq_nil hrun), ok_bind]
  rfl

theorem feeds_openParams {name keyword : String} :
    Feeds (b.placed level (.params name keyword .nowhere) previous k) [.word "("]
      ((b.inside level (.params name false)).placed {} .any (.token (.word "(")) k) :=
  feeds_single.mpr rfl

theorem feeds_openAnonymousBody {head : FunctionHead} {close : Span} :
    Feeds (b.placed level (.body head true close) previous k) [.word "\x7b"]
      ((b.inside level (.block (some head))).placed {} .any (.token (.word "\x7b")) k) :=
  feeds_single.mpr rfl

theorem feeds_openNamedBody {head : FunctionHead} {close : Span} :
    Feeds (b.placed level (.body head false close) previous k) [.word "\x7b"]
      ((b.inside (level.item (.define head)) (.block none)).placed {} .any
        (.token (.word "\x7b")) k) := by
  refine feeds_single.mpr (?_ : bodyToken (b.placed level .any _ k) _ _ _ = _)
  simp only [bodyToken, mapLevel_placed]
  rfl

theorem feeds_equals {name : String} (hrun : level.run = []) (hgroups : level.groups = []) :
    Feeds (b.placed (level.operand (.ident name .unresolved .nowhere)) .any previous k) [.word "="]
      (b.placed (level.item (.assign name .plain .nowhere)) .any (.token (.word "=")) k) := by
  have hrole : Role.ofWord "=" = .equals := by decide
  refine feeds_word ?_
  rcases level with ⟨run, items, lines, parts, groups⟩
  obtain rfl : run = [] := hrun
  obtain rfl : groups = [] := hgroups
  simp [word, hrole, equals, Level.operand, Level.item]

theorem feeds_declare {keyword : String} {decl : DeclKind}
    (hrole : Role.ofWord keyword = .declare decl) (hrun : level.run = []) :
    Feeds (b.placed level .any previous k) [.word keyword]
      (b.placed level (.target decl .nowhere) (.token (.word keyword)) k) := by
  refine feeds_word ?_
  simp only [word, hrole, start, tryLevel_placed .any (Level.closeExpression_of_run_eq_nil hrun),
    ok_bind]
  rfl

theorem feeds_target {name : String} {decl : DeclKind} (hname : isIdentifier name = true) :
    Feeds (b.placed level (.target decl .nowhere) previous k) [.word name]
      (b.placed level (.initializer decl name .nowhere) (.token (.word name)) k) := by
  refine feeds_single.mpr (?_ : targetToken (b.placed level .any _ k) _ _ _ = _)
  simp only [targetToken, nameOf?_word hname]
  rfl

theorem feeds_initializer {name : String} {decl : DeclKind} :
    Feeds (b.placed level (.initializer decl name .nowhere) previous k) [.word "="]
      (b.placed (level.item (.assign name decl .nowhere)) .any (.token (.word "=")) k) := by
  refine feeds_single.mpr (?_ : initializerToken (b.placed level .any _ k) _ _ _ _ _ = _)
  simp [initializerToken]

/-! ## Statements and blocks -/

/-- What can be expected at the end of a statement: that it goes on, or an `else`. -/
def Settled (expectation : Expectation) : Prop := expectation = .any ∨ expectation = .otherwise

/-- A token after a statement that is no `else` finds the statement closed, or closes it. -/
theorem feeds_of_settled {expectation : Expectation} {kind : TokenKind} {b' : Builder}
    (hsettled : Settled expectation) (hkind : kind ≠ .word "else")
    (hclose : level.closeLine = .ok closed)
    (hany : Feeds (b.placed level .any previous k) [kind] b')
    (hclosed : Feeds (b.placed closed .any previous k) [kind] b') :
    Feeds (b.placed level expectation previous k) [kind] b' := by
  rcases hsettled with rfl | rfl
  · exact hany
  · have hhandle : (b.placed closed .any (.token kind) k).handle previous ⟨kind, .nowhere⟩ =
        .ok b' := feeds_single.mp hclosed
    refine feeds_single.mpr (?_ : otherwiseToken (b.placed level .any _ k) _ _ = _)
    simp only [otherwiseToken, if_neg hkind, tryLevel_placed .any hclose, ok_bind]
    exact hhandle

/-- A `;` in the builder ends a statement. -/
def Separates (b : Builder) : Prop :=
  ∀ ⦃level closed : Level⦄ ⦃previous : Previous⦄ ⦃k : Nat⦄, level.groups = [] →
    level.closeLine = .ok closed →
    Feeds (b.placed level .any previous k) [.separator] (b.placed closed .any (.token .separator) k)

theorem separates_start : Separates {} := by
  intro level closed previous k hgroups hclose
  refine feeds_single.mpr (?_ : endStatement (placed {} level .any (.token .separator) k) = _)
  rw [endStatement, level_placed, hgroups]
  exact tryLevel_placed .any hclose

theorem separates_inside_block (b : Builder) (outer : Level) (head : Option FunctionHead) :
    Separates (b.inside outer (.block head)) := by
  intro level closed previous k hgroups hclose
  refine feeds_single.mpr (?_ : endStatement (placed _ level .any (.token .separator) k) = _)
  rw [endStatement, level_placed, hgroups]
  exact tryLevel_placed .any hclose

/-- The token of a kind ends a part in the builder. -/
def EndsPart (b : Builder) (kind : TokenKind) : Prop :=
  ∀ ⦃level closed : Level⦄ ⦃previous : Previous⦄ ⦃k : Nat⦄, level.groups = [] →
    level.closePart = .ok closed →
    Feeds (b.placed level .any previous k) [kind] (b.placed closed .any (.token kind) k)

theorem endsPart_inside_call (b : Builder) (outer : Level) (callee : Node) :
    EndsPart (b.inside outer (.call callee)) (.word ",") := by
  intro level closed previous k hgroups hclose
  have hrole : Role.ofWord "," = .comma := by decide
  refine feeds_word ?_
  simp only [word, hrole]
  refine Eq.trans ?_ (tryLevel_placed .any hclose)
  rw [comma, level_placed, hgroups]
  rfl

theorem endsPart_inside_params (b : Builder) (outer : Level) (name : String) (anonymous : Bool) :
    EndsPart (b.inside outer (.params name anonymous)) (.word ",") := by
  intro level closed previous k hgroups hclose
  have hrole : Role.ofWord "," = .comma := by decide
  refine feeds_word ?_
  simp only [word, hrole]
  refine Eq.trans ?_ (tryLevel_placed .any hclose)
  rw [comma, level_placed, hgroups]
  rfl

theorem endsPart_inside_header (b : Builder) (outer : Level) (construct : Construct) :
    EndsPart (b.inside outer (.header construct)) .separator := by
  intro level closed previous k hgroups hclose
  refine feeds_single.mpr (?_ : semicolon (placed _ level .any (.token .separator) k) _ = _)
  refine Eq.trans ?_ (tryLevel_placed .any hclose)
  rw [semicolon, level_placed, hgroups]
  rfl

theorem feeds_openBlock (hrun : level.run = []) :
    Feeds (b.placed level .any previous k) [.word "\x7b"]
      ((b.inside level (.block none)).placed {} .any (.token (.word "\x7b")) k) := by
  have hrole : Role.ofWord "\x7b" = .openBrace := by decide
  refine feeds_word ?_
  simp only [word, hrole, openBrace,
    tryLevel_placed .any (Level.closeExpression_of_run_eq_nil hrun), ok_bind]
  rfl

theorem closeBrace_inside {head : Option FunctionHead} {inner : Level}
    (hgroups : inner.groups = []) :
    ((b.inside level (.block head)).placed inner .any previous k).closeBrace .nowhere =
      (b.placed level .any previous k).finishBlock head .nowhere .nowhere inner := by
  rcases inner with ⟨run, items, lines, parts, groups⟩
  obtain rfl : groups = [] := hgroups
  rfl

/-- A `\x7d` after a finished statement ends the block. -/
theorem feeds_closeBrace {head : Option FunctionHead} {inner : Level} {expectation : Expectation}
    {lines : List Node} {b' : Builder} (hgroups : inner.groups = [])
    (hsettled : Settled expectation) (hclose : inner.closeLine = .ok { lines := lines })
    (h : (b.placed level .any (.token (.word "\x7d")) k).finishBlock head .nowhere .nowhere
      { lines := lines } = .ok b') :
    Feeds ((b.inside level (.block head)).placed inner expectation previous k)
      [.word "\x7d"] b' := by
  have hrole : Role.ofWord "\x7d" = .closeBrace := by decide
  have hfinish : (b.placed level .any (.token (.word "\x7d")) k).finishBlock head .nowhere .nowhere
      inner = .ok b' := by
    rw [← h, finishBlock, finishBlock, hclose]
    rfl
  refine feeds_of_settled hsettled (by decide) hclose ?_ ?_
  · refine feeds_word ?_
    rw [word, hrole]
    exact (closeBrace_inside hgroups).trans hfinish
  · refine feeds_word ?_
    rw [word, hrole]
    exact (closeBrace_inside rfl).trans h

theorem feeds_closeBlock {inner : Level} {expectation : Expectation} {nodes : List Node}
    (hgroups : inner.groups = []) (hsettled : Settled expectation)
    (hclose : inner.closeLine = .ok { lines := nodes.reverse }) :
    Feeds ((b.inside level (.block none)).placed inner expectation previous k) [.word "\x7d"]
      (b.placed (level.item (.node (.block nodes .nowhere))) .otherwise
        (.token (.word "\x7d")) k) := by
  refine feeds_closeBrace hgroups hsettled hclose ?_
  simp only [finishBlock, Level.closeLine_of_closed, ok_bind, mapLevel_placed, Span.nowhere_merge,
    List.reverse_reverse]
  rfl

theorem feeds_closeAnonymous {name : String} {params : List Param} {inner : Level}
    {expectation : Expectation} {nodes : List Node} (hgroups : inner.groups = [])
    (hsettled : Settled expectation) (hclose : inner.closeLine = .ok { lines := nodes.reverse }) :
    Feeds ((b.inside level (.block (some ⟨name, params, .nowhere⟩))).placed inner expectation
        previous k) [.word "\x7d"]
      (b.placed (level.operand
          (.define name none params (.block nodes .nowhere) .blank .nowhere)) .any
        (.token (.word "\x7d")) k) := by
  refine feeds_closeBrace hgroups hsettled hclose ?_
  simp only [finishBlock, Level.closeLine_of_closed, ok_bind, FunctionHead.complete,
    Span.nowhere_merge, Node.span, mapLevel_placed, List.reverse_reverse]
  rfl

/-- An `else` after a block waits for its branch. -/
theorem feeds_else {node : Node} {rest : List Item} (hrun : level.run = [])
    (hitems : level.items = .node node :: rest) :
    Feeds (b.placed level .otherwise previous k) [.word "else"]
      (b.placed (level.item (.otherwise .nowhere)) .any (.token (.word "else")) k) := by
  have hrole : Role.ofWord "else" = .otherwise := by decide
  refine feeds_single.mpr (?_ : word (b.placed level .any _ k) previous "else" _ = _)
  simp only [word, hrole, otherwise,
    tryLevel_placed .any (Level.closeExpression_of_run_eq_nil hrun), ok_bind, level_placed, hitems,
    mapLevel_placed]
  rfl

/-- The end of the tokens closes the last statement. -/
theorem finish_placed {expectation : Expectation} {lines : List Node} (hgroups : level.groups = [])
    (hsettled : Settled expectation) (hclose : level.closeLine = .ok { lines := lines })
    (ending : Option Span) :
    (placed {} level expectation previous k).finish ending = .ok { body := lines.reverse } := by
  rcases hsettled with rfl | rfl
  · rcases level with ⟨run, items, closed, parts, groups⟩
    obtain rfl : groups = [] := hgroups
    have hfinish : (placed {} ⟨run, items, closed, parts, []⟩ .any previous k).finish ending =
        (Level.closeLine ⟨run, items, closed, parts, []⟩ >>= fun root =>
          pure ({ body := root.lines.reverse } : Program)) := rfl
    rw [hfinish, hclose]
    rfl
  · have hsettle : (placed {} level .otherwise previous k).settle ending =
        .ok (placed {} { lines := lines } .otherwise previous k) :=
      tryLevel_placed .otherwise hclose
    rw [finish, hsettle, ok_bind]
    rfl

end Builder

end SlotScript
