import SlotScript.Proofs.Tree.Feed
import SlotScript.Proofs.Tree.Source

/-!
# Reading what was written gives it back

**Theorem (`Program.ofTokens_written`).** If the tokens up to the end are those of a written
program, the builder accepts them, and apart from positions its tree is the one that was meant.

The proof follows the written program. Each of its parts is read in a state of the builder about
which little has to be known, and what the builder looks like afterwards is said by a relation for
the part's kind:

* `ReadsItems` for an expression. It only adds items to the run, those of `Expr.fold`, and the
  token before the next one ends an operand.
* `ReadsParts` for what stands in the parentheses of a call, a header or a parameter list.
* `ReadsStatement` for a statement. Its items, when they are joined with those that wait to its
  left, do what its node alone would do.
* `ReadsLines` for the statements of a block or of the program.
-/

namespace SlotScript

theorem Previous.endsOperand_of_isCallable {previous : Previous} (h : previous.isCallable = true) :
    previous.endsOperand = true := by
  cases hends : previous.endsOperand with
  | true => rfl
  | false =>
    rw [isCallable_eq_false hends] at h
    cases h

namespace Source

open Builder

/-! ## What it means that tokens are read -/

section Relations

variable (b : Builder) (level : Level) (k : Nat) (kinds : List TokenKind)

/-- The tokens add items to the expression that is being read. -/
def ReadsItems (items : Run) (k' : Nat) : Prop :=
  ∀ previous, previous.endsOperand = false → ∃ previous', previous'.endsOperand = true ∧
    Feeds (b.placed level .any previous k) kinds
      (b.placed { level with run := items.reverse ++ level.run } .any previous' k')

/-- The tokens add an operand that can be called. -/
def ReadsCallee (node : Node) (k' : Nat) : Prop :=
  ∀ previous, ∃ previous', previous'.isCallable = true ∧
    Feeds (b.placed level .any previous k) kinds
      (b.placed (level.operand node) .any previous' k')

/-- The tokens make parts of a call, a header or a parameter list, the last of them still open. -/
def ReadsParts (found : List (Option Node)) (k' : Nat) : Prop :=
  ∀ parts previous, previous.endsOperand = false → ∃ level previous', level.groups = [] ∧
    level.closePart = .ok { parts := found.reverse ++ parts } ∧
    Feeds (b.placed { parts := parts } .any previous k) kinds (b.placed level .any previous' k')

/-- The tokens make a statement, which may still go on as the expectation says. -/
def ReadsStatement (node : Node) (expectation : Expectation) (k' : Nat) : Prop :=
  ∀ level previous, level.run = [] → level.groups = [] → previous.endsOperand = false →
    ∃ level' previous' items, level'.groups = [] ∧
      level'.closeExpression = .ok { level with items := items } ∧
      Line.weldFrom [] none items = Line.weldFrom [node] none level.items ∧
      Feeds (b.placed level .any previous k) kinds (b.placed level' expectation previous' k')

/-- The tokens make statements, the last of them still open. -/
def ReadsLines (nodes : List Node) (k' : Nat) : Prop :=
  ∀ lines previous, previous.endsOperand = false → ∃ level expectation previous',
    Settled expectation ∧ level.groups = [] ∧
    level.closeLine = .ok { lines := nodes.reverse ++ lines } ∧
    Feeds (b.placed { lines := lines } .any previous k) kinds
      (b.placed level expectation previous' k')

end Relations

/-! ## Expressions -/

section Expressions

variable {b : Builder} {level : Level} {k k' : Nat} {kinds : List TokenKind}

theorem ReadsItems.of_operand {node : Node} {previous' : Previous}
    (hends : previous'.endsOperand = true)
    (h : ∀ previous, Feeds (b.placed level .any previous k) kinds
      (b.placed (level.operand node) .any previous' k')) :
    ReadsItems b level k kinds [.operand node] k' :=
  fun previous _ => ⟨previous', hends, h previous⟩

theorem ReadsCallee.items {node : Node} (h : ReadsCallee b level k kinds node k') :
    ReadsItems b level k kinds [.operand node] k' := by
  intro previous _
  obtain ⟨previous', hcallable, hfeeds⟩ := h previous
  exact ⟨previous', Previous.endsOperand_of_isCallable hcallable, hfeeds⟩

/-- Parentheses are read around what is read under one more group, whatever its last token is. -/
theorem ReadsItems.of_inside {items : Run} (previous' : Previous)
    (h : Feeds
      (b.placed { level with groups := .nowhere :: level.groups } .any (.token (.word "(")) k) kinds
      (b.placed { level with
        run := items.reverse ++ level.run, groups := .nowhere :: level.groups } .any previous' k')) :
    ReadsItems b level k (parens kinds) items k' := by
  intro previous hprevious
  refine ⟨.token (.word ")"), by decide, ?_⟩
  exact ((feeds_openGroup hprevious).cons h).append (feeds_closeGroup rfl)

theorem ReadsItems.parens {items : Run}
    (h : ReadsItems b { level with groups := .nowhere :: level.groups } k kinds items k') :
    ReadsItems b level k (parens kinds) items k' := by
  obtain ⟨previous', -, hfeeds⟩ := h (.token (.word "(")) (by decide)
  exact ReadsItems.of_inside previous' hfeeds

/-- Parentheses that may be needed are read around what is read under the groups it then has. -/
theorem ReadsItems.parensIf {e : Expr} {needed : Bool} (level : Level)
    (hread : ∀ level : Level, e.Shallow level.groups.length →
      ReadsItems b level k e.tokens (e.fold level.groups.length k).items k')
    (h : e.Shallow (under needed level.groups.length)) :
    ReadsItems b level k (parensIf needed e.tokens)
      (e.fold (under needed level.groups.length) k).items k' := by
  cases needed with
  | true => exact ReadsItems.parens (hread _ h)
  | false => exact hread level h

/-- An operator in front of an operand is read before it. -/
theorem ReadsItems.front {op : Operator} {base : Nat} {kind : TokenKind} {items : Run}
    (hkind : (Previous.token kind).endsOperand = false)
    (hop : ∀ previous, previous.endsOperand = false → Feeds (b.placed level .any previous k) [kind]
      (b.placed (level.operator op base .nowhere) .any (.token kind) k))
    (h : ReadsItems b (level.operator op base .nowhere) k kinds items k') :
    ReadsItems b level k (kind :: kinds)
      (.operator op (effectivePrecedence base level.groups.length) .nowhere :: items) k' := by
  intro previous hprevious
  obtain ⟨previous', hends, hfeeds⟩ := h (.token kind) hkind
  refine ⟨previous', hends, ?_⟩
  rw [List.reverse_cons, List.append_assoc]
  exact (hop previous hprevious).cons hfeeds

/-- An operator behind an operand is read between it and the next. -/
theorem ReadsItems.between {op : Operator} {base : Nat} {kind : TokenKind} {k'' : Nat}
    {left right : Run} {kinds' : List TokenKind}
    (hkind : (Previous.token kind).endsOperand = false)
    (hop : ∀ level previous, previous.endsOperand = true →
      Feeds (b.placed level .any previous k') [kind]
        (b.placed (level.operator op base .nowhere) .any (.token kind) k'))
    (hleft : ReadsItems b level k kinds left k')
    (hright : ∀ run, ReadsItems b { level with run := run } k' kinds' right k'') :
    ReadsItems b level k (kinds ++ kind :: kinds')
      (left ++ .operator op (effectivePrecedence base level.groups.length) .nowhere :: right)
      k'' := by
  intro previous hprevious
  obtain ⟨previous₁, hends₁, hfeeds₁⟩ := hleft previous hprevious
  obtain ⟨previous₂, hends₂, hfeeds₂⟩ := hright
    (.operator op (effectivePrecedence base level.groups.length) .nowhere ::
      (left.reverse ++ level.run)) (.token kind) hkind
  refine ⟨previous₂, hends₂, ?_⟩
  simp only [List.reverse_append, List.reverse_cons, List.append_assoc, List.singleton_append]
  exact hfeeds₁.append ((hop _ previous₁ hends₁).cons hfeeds₂)

end Expressions

/-! ## Parts -/

section Parts

variable {b : Builder} {level : Level} {k k' k'' : Nat} {kinds kinds' : List TokenKind}
  {previous : Previous}

/-- The parts of a list: a list without separators may be empty. -/
def listed : List Node → List (Option Node)
  | [] => [none]
  | nodes => nodes.map some

theorem listParts_listed (missing : Missing) (nodes : List Node) :
    Level.listParts missing .nowhere (listed nodes) = .ok nodes := by
  cases nodes with
  | nil => rfl
  | cons node rest => exact Level.listParts_map_some missing .nowhere (node :: rest)

theorem ReadsParts.nothing : ReadsParts b k [] [none] k :=
  fun parts previous _ => ⟨{ parts := parts }, previous, rfl, rfl, Feeds.nil _⟩

theorem ReadsParts.append {kind : TokenKind} {found found' : List (Option Node)}
    (h : ReadsParts b k kinds found k') (hends : EndsPart b kind)
    (hkind : (Previous.token kind).endsOperand = false)
    (h' : ReadsParts b k' kinds' found' k'') :
    ReadsParts b k (kinds ++ kind :: kinds') (found ++ found') k'' := by
  intro parts previous hprevious
  obtain ⟨level, previous₁, hgroups, hclose, hfeeds⟩ := h parts previous hprevious
  obtain ⟨level', previous₂, hgroups', hclose', hfeeds'⟩ :=
    h' (found.reverse ++ parts) (.token kind) hkind
  refine ⟨level', previous₂, hgroups', ?_, hfeeds.append ((hends hgroups hclose).cons hfeeds')⟩
  rw [hclose', List.reverse_append, List.append_assoc]

/-- A statement that ends with its last token can be a part. -/
theorem ReadsStatement.part {node : Node} (h : ReadsStatement b k kinds node .any k') :
    ReadsParts b k kinds [some node] k' := by
  intro parts previous hprevious
  obtain ⟨level, previous', items, hgroups, hclose, hweld, hfeeds⟩ :=
    h { parts := parts } previous rfl rfl hprevious
  refine ⟨level, previous', hgroups, ?_, hfeeds⟩
  exact Level.closePart_of_closeLine (some node) (Level.closeLine_of_weld hclose hweld)

/-- The arguments of a call are read after what is called. -/
theorem ReadsCallee.call {callee : Node} {args : List Node}
    (hcallee : ReadsCallee b level k kinds callee k') (hspan : callee.span = .nowhere)
    (hargs : ReadsParts (b.inside level (.call callee)) k' kinds' (listed args) k'') :
    ReadsCallee b level k (kinds ++ parens kinds') (.call callee args .nowhere) k'' := by
  intro previous
  obtain ⟨previous₁, hcallable, hfeeds⟩ := hcallee previous
  obtain ⟨inner, previous₂, hgroups, hclose, hinner⟩ := hargs [] (.token (.word "(")) (by decide)
  refine ⟨.closedCall, rfl, hfeeds.append ?_⟩
  have hlisted : Level.listParts .argument .nowhere ((listed args).reverse ++ []).reverse =
      .ok args := by
    simp [listParts_listed]
  exact ((feeds_openCall hspan hcallable).cons hinner).append
    (feeds_closeCall hgroups hclose hlisted)

/-- A construct's header is read as its item. -/
theorem feeds_header (construct : Construct) {found : List (Option Node)} {item : Item}
    (hrun : level.run = [])
    (h : ReadsParts (b.inside level (.header construct)) k kinds found k')
    (hitem : headerItem construct .nowhere .nowhere found = .ok item) :
    Feeds (b.placed level .any previous k) (.word construct.keyword :: parens kinds)
      (b.placed (level.item item) .any .closedHeader k') := by
  obtain ⟨inner, previous', hgroups, hclose, hinner⟩ := h [] (.token (.word "(")) (by decide)
  have hfound : headerItem construct .nowhere .nowhere (found.reverse ++ []).reverse = .ok item := by
    simpa using hitem
  exact (feeds_construct construct hrun).cons
    (((feeds_openHeader construct).cons hinner).append (feeds_closeHeader hgroups hclose hfound))

/-- A parameter list leaves its function's head to the body. -/
theorem feeds_params {name : String} {anonymous : Bool} {nodes : List Node} {params : List Param}
    (h : ReadsParts (b.inside level (.params name anonymous)) k kinds (listed nodes) k')
    (hparams : nodes.mapM paramOf = .ok params) :
    Feeds ((b.inside level (.params name anonymous)).placed {} .any (.token (.word "(")) k)
      (kinds ++ [.word ")"])
      (b.placed level (.body ⟨name, params, .nowhere⟩ anonymous .nowhere)
        (.token (.word ")")) k') := by
  obtain ⟨inner, previous', hgroups, hclose, hinner⟩ := h [] (.token (.word "(")) (by decide)
  have hlisted : Level.listParts .parameter .nowhere ((listed nodes).reverse ++ []).reverse =
      .ok nodes := by
    simp [listParts_listed]
  exact hinner.append (feeds_closeParams hgroups hclose hlisted hparams)

end Parts

/-! ## Statements -/

section Statements

variable {b : Builder} {level : Level} {k k' k'' : Nat} {kinds kinds' : List TokenKind}
  {previous : Previous} {node : Node} {expectation : Expectation}

/-- A statement of which only the run is left is what the run folds to. -/
theorem ReadsStatement.of_run (items : Run) (hnode : Run.assemble items = .ok node)
    (h : ∀ level previous, level.groups = [] → previous.endsOperand = false →
      ∃ previous', Feeds (b.placed level .any previous k) kinds
        (b.placed { level with run := items.reverse ++ level.run } .any previous' k')) :
    ReadsStatement b k kinds node .any k' := by
  intro level previous hrun hgroups hprevious
  obtain ⟨previous', hfeeds⟩ := h level previous hgroups hprevious
  have hclose : Level.closeExpression { level with run := items.reverse ++ level.run } =
      .ok { level with run := [], items := .node node :: level.items } :=
    Level.closeExpression_of_assemble (by simpa [hrun] using hnode)
  refine ⟨_, previous', .node node :: level.items, ?_, ?_, rfl, hfeeds⟩
  · exact hgroups
  · rw [hclose, hrun]

/-- The value of an assignment is read after its target. -/
theorem ReadsStatement.assign (decl : DeclKind) (target : Name)
    (hspan : node.span = .nowhere) (h : ReadsStatement b k kinds node expectation k') :
    ReadsStatement b k (assignTokens target decl ++ kinds)
      (.assign target.text .unresolved decl none node .nowhere) expectation k' := by
  intro level previous hrun hgroups hprevious
  obtain ⟨level', previous', items, hgroups', hclose, hweld, hfeeds⟩ :=
    h (level.item (.assign target.text decl .nowhere)) (.token (.word "=")) hrun hgroups
      (by decide)
  refine ⟨level', previous', items, hgroups', hclose, ?_, Feeds.append ?_ hfeeds⟩
  · simp [hweld, Level.item, Line.weldFrom, Line.takeOne, hspan]
  · cases decl with
    | plain => exact (feeds_name target.valid).cons (feeds_equals hrun hgroups)
    | var =>
      exact (feeds_declare (by decide) hrun).cons ((feeds_target target.valid).cons
        feeds_initializer)
    | const =>
      exact (feeds_declare (by decide) hrun).cons ((feeds_target target.valid).cons
        feeds_initializer)

/-- A statement that is read by its items only is what these are joined to. -/
theorem ReadsStatement.of_items
    (h : ∀ level previous, level.run = [] → level.groups = [] → previous.endsOperand = false →
      ∃ previous' items,
        Line.weldFrom [] none items = Line.weldFrom [node] none level.items ∧
        Feeds (b.placed level .any previous k) kinds
          (b.placed { level with items := items } expectation previous' k')) :
    ReadsStatement b k kinds node expectation k' := by
  intro level previous hrun hgroups hprevious
  obtain ⟨previous', items, hweld, hfeeds⟩ := h level previous hrun hgroups hprevious
  exact ⟨{ level with items := items }, previous', items, hgroups,
    Level.closeExpression_of_run_eq_nil hrun, hweld, hfeeds⟩

/-- A statement alone is a line. -/
theorem ReadsStatement.lines (hsettled : Settled expectation)
    (h : ReadsStatement b k kinds node expectation k') : ReadsLines b k kinds [node] k' := by
  intro lines previous hprevious
  obtain ⟨level, previous', items, hgroups, hclose, hweld, hfeeds⟩ :=
    h { lines := lines } previous rfl rfl hprevious
  exact ⟨level, expectation, previous', hsettled, hgroups,
    Level.closeLine_of_weld hclose hweld, hfeeds⟩

theorem ReadsLines.nothing : ReadsLines b k [] [] k := fun lines previous _ =>
  ⟨{ lines := lines }, .any, previous, Or.inl rfl, rfl, rfl, Feeds.nil _⟩

theorem ReadsLines.append {nodes nodes' : List Node} (h : ReadsLines b k kinds nodes k')
    (hseparates : Separates b) (h' : ReadsLines b k' kinds' nodes' k'') :
    ReadsLines b k (kinds ++ .separator :: kinds') (nodes ++ nodes') k'' := by
  intro lines previous hprevious
  obtain ⟨level, expectation, previous₁, hsettled, hgroups, hclose, hfeeds⟩ :=
    h lines previous hprevious
  obtain ⟨level', expectation', previous₂, hsettled', hgroups', hclose', hfeeds'⟩ :=
    h' (nodes.reverse ++ lines) (.token .separator) rfl
  refine ⟨level', expectation', previous₂, hsettled', hgroups', ?_, hfeeds.append (Feeds.cons ?_
    hfeeds')⟩
  · rw [hclose', List.reverse_append, List.append_assoc]
  · exact feeds_of_settled hsettled (by decide) hclose (hseparates hgroups hclose)
      (hseparates rfl (Level.closeLine_of_closed _ _ _))

/-- A block is read as an item. -/
theorem feeds_block {nodes : List Node} (hrun : level.run = [])
    (h : ReadsLines (b.inside level (.block none)) k kinds nodes k') :
    Feeds (b.placed level .any previous k) (braces kinds)
      (b.placed (level.item (.node (.block nodes .nowhere))) .otherwise
        (.token (.word "\x7d")) k') := by
  obtain ⟨inner, expectation, previous', hsettled, hgroups, hclose, hinner⟩ :=
    h [] (.token (.word "\x7b")) (by decide)
  rw [List.append_nil] at hclose
  exact ((feeds_openBlock hrun).cons hinner).append (feeds_closeBlock hgroups hsettled hclose)

/-- The body of a named function is read after its head. -/
theorem feeds_namedBody {head : FunctionHead} {close : Span} {nodes : List Node}
    (h : ReadsLines (b.inside (level.item (.define head)) (.block none)) k kinds nodes k') :
    Feeds (b.placed level (.body head false close) previous k) (braces kinds)
      (b.placed ((level.item (.define head)).item (.node (.block nodes .nowhere))) .otherwise
        (.token (.word "\x7d")) k') := by
  obtain ⟨inner, expectation, previous', hsettled, hgroups, hclose, hinner⟩ :=
    h [] (.token (.word "\x7b")) (by decide)
  rw [List.append_nil] at hclose
  exact (feeds_openNamedBody.cons hinner).append (feeds_closeBlock hgroups hsettled hclose)

/-- The body of an anonymous function is read after its head. -/
theorem feeds_anonymousBody {name : String} {params : List Param} {close : Span}
    {nodes : List Node}
    (h : ReadsLines (b.inside level (.block (some ⟨name, params, .nowhere⟩))) k kinds nodes k') :
    Feeds (b.placed level (.body ⟨name, params, .nowhere⟩ true close) previous k) (braces kinds)
      (b.placed (level.operand
          (.define name none params (.block nodes .nowhere) .blank .nowhere)) .any
        (.token (.word "\x7d")) k') := by
  obtain ⟨inner, expectation, previous', hsettled, hgroups, hclose, hinner⟩ :=
    h [] (.token (.word "\x7b")) (by decide)
  rw [List.append_nil] at hclose
  exact (feeds_openAnonymousBody.cons hinner).append (feeds_closeAnonymous hgroups hsettled hclose)

/-- What stands behind the first block of an `if`: the branches are joined with it. -/
def ReadsOtherwise (b : Builder) (k : Nat) (kinds : List TokenKind) (no : Option Node)
    (k' : Nat) : Prop :=
  ∀ level cond yes rest previous, level.run = [] →
    level.items = .node yes :: .branch cond .nowhere :: rest → yes.span = .nowhere →
    ∃ previous' items,
      Line.weldFrom [] none items =
        Line.weldFrom [.branch cond yes no .blank .blank .nowhere] none rest ∧
      Feeds (b.placed level .otherwise previous k) kinds
        (b.placed { level with items := items } .otherwise previous' k')

theorem ReadsOtherwise.nothing : ReadsOtherwise b k [] none k := by
  intro level cond yes rest previous hrun hitems hspan
  refine ⟨previous, level.items, ?_, Feeds.nil _⟩
  simp [hitems, Line.weldFrom, Line.takeOne, hspan]

theorem ReadsOtherwise.block {nodes : List Node}
    (h : ∀ level, ReadsLines (b.inside level (.block none)) k kinds nodes k') :
    ReadsOtherwise b k (.word "else" :: braces kinds) (some (.block nodes .nowhere)) k' := by
  intro level cond yes rest previous hrun hitems hspan
  refine ⟨_, _, ?_, (feeds_else hrun hitems).cons (feeds_block hrun (h _))⟩
  simp [Level.item, hitems, Line.weldFrom, Item.admitsElse, Line.takeOne, Node.span]

/-- A branch with its condition, its block and what stands behind it. -/
theorem feeds_branch (previous : Previous) {cond : Node} {nodes : List Node} {no : Option Node}
    {k₁ k₂ : Nat} {condKinds bodyKinds noKinds : List TokenKind} (hrun : level.run = [])
    (hcond : ∀ b, ReadsParts b k condKinds [some cond] k₁)
    (hbody : ∀ level, ReadsLines (b.inside level (.block none)) k₁ bodyKinds nodes k₂)
    (hno : ReadsOtherwise b k₂ noKinds no k') :
    ∃ previous' items,
      Line.weldFrom [] none items =
        Line.weldFrom [.branch cond (.block nodes .nowhere) no .blank .blank .nowhere] none
          level.items ∧
      Feeds (b.placed level .any previous k)
        (.word "if" :: parens condKinds ++ braces bodyKinds ++ noKinds)
        (b.placed { level with items := items } .otherwise previous' k') := by
  have hheader : Feeds (b.placed level .any previous k) (.word "if" :: parens condKinds)
      (b.placed (level.item (.branch cond .nowhere)) .any .closedHeader k₁) :=
    feeds_header .branch hrun (hcond (b.inside level (.header .branch))) rfl
  have hblock : Feeds (b.placed (level.item (.branch cond .nowhere)) .any .closedHeader k₁)
      (braces bodyKinds)
      (b.placed ((level.item (.branch cond .nowhere)).item (.node (.block nodes .nowhere)))
        .otherwise (.token (.word "\x7d")) k₂) :=
    feeds_block hrun (hbody _)
  obtain ⟨previous', items, hweld, hfeeds⟩ := hno
    ((level.item (.branch cond .nowhere)).item (.node (.block nodes .nowhere))) cond
    (.block nodes .nowhere) level.items (.token (.word "\x7d")) hrun rfl rfl
  exact ⟨previous', items, hweld, (hheader.append hblock).append hfeeds⟩

theorem ReadsOtherwise.branch {cond : Node} {nodes : List Node} {no : Option Node} {k₁ k₂ : Nat}
    {condKinds bodyKinds noKinds : List TokenKind}
    (hcond : ∀ b, ReadsParts b k condKinds [some cond] k₁)
    (hbody : ∀ level, ReadsLines (b.inside level (.block none)) k₁ bodyKinds nodes k₂)
    (hno : ReadsOtherwise b k₂ noKinds no k') :
    ReadsOtherwise b k
      (.word "else" :: .word "if" :: parens condKinds ++ braces bodyKinds ++ noKinds)
      (some (.branch cond (.block nodes .nowhere) no .blank .blank .nowhere)) k' := by
  intro level outer yes rest previous hrun hitems hspan
  have hinner : (level.item (.otherwise .nowhere)).run = [] := hrun
  obtain ⟨previous', items, hweld, hfeeds⟩ := feeds_branch (.token (.word "else")) hinner hcond
    hbody hno
  refine ⟨previous', items, ?_, (feeds_else hrun hitems).cons hfeeds⟩
  rw [hweld]
  simp [Level.item, hitems, Line.weldFrom, Item.admitsElse, Line.takeOne, Node.span]

end Statements

/-! ## The parts of a written program -/

/-- The parameter as it stands in the parts of a parameter list. -/
def Parameter.part (k : Nat) : Parameter → Node
  | .required name => .ident name.text .unresolved .nowhere
  | .optional name value => .assign name.text .unresolved .plain none (value.node k) .nowhere

/-- The parameters as they stand in the parts of a parameter list. -/
def paramParts (k : Nat) : List Parameter → List Node
  | [] => []
  | param :: rest => param.part k :: paramParts (k + param.count) rest

theorem paramOf_part (param : Parameter) (k : Nat) :
    paramOf (param.part k) = .ok (param.node k) := by
  cases param <;> simp [Parameter.part, Parameter.node, paramOf]

theorem mapM_paramOf_paramParts (params : List Parameter) (k : Nat) :
    (paramParts k params).mapM paramOf = .ok (paramNodes k params) := by
  induction params generalizing k with
  | nil => simp [paramParts, paramNodes]; rfl
  | cons param rest ih =>
    rw [paramParts, List.mapM_cons, paramOf_part, ok_bind, ih, paramNodes]
    rfl

theorem Stmt.node_span (s : Stmt) (k : Nat) : (s.node k).span = .nowhere := by
  cases s with
  | expr e => exact e.node_span k
  | _ => simp [Stmt.node, Node.span]

/-- An expression that is read is a statement. -/
theorem Expr.readsStatement {e : Expr} {b : Builder} {k k' : Nat} (h : e.Shallow 0)
    (hread : ∀ level : Level, e.Shallow level.groups.length →
      ReadsItems b level k e.tokens (e.fold level.groups.length k).items k') :
    ReadsStatement b k e.tokens (e.node k) .any k' := by
  refine ReadsStatement.of_run _ (Expr.assemble_fold h k) fun level previous hgroups hprevious => ?_
  have hdepth : level.groups.length = 0 := by rw [hgroups]; rfl
  obtain ⟨previous', -, hfeeds⟩ := hread level (hdepth ▸ h) previous hprevious
  rw [hdepth] at hfeeds
  exact ⟨previous', hfeeds⟩

mutual

theorem Callee.reads (callee : Callee) (b : Builder) (level : Level) (k : Nat)
    (h : callee.Shallow) :
    ReadsCallee b level k callee.tokens (callee.node k) (k + callee.count) := by
  cases callee with
  | name name =>
    intro previous
    exact ⟨.token (.word name.text), name.valid, feeds_name name.valid⟩
  | call callee args =>
    obtain ⟨hcallee, hargs⟩ := h
    rw [Callee.tokens, Callee.node, Callee.count, ← Nat.add_assoc]
    exact ReadsCallee.call (callee.reads b level k hcallee) (callee.node_span k)
      (args_read args _ _ (endsPart_inside_call b level _) hargs)
termination_by structural callee

theorem Expr.reads (e : Expr) (b : Builder) (level : Level) (k : Nat)
    (h : e.Shallow level.groups.length) :
    ReadsItems b level k e.tokens (e.fold level.groups.length k).items (k + e.count) := by
  cases e with
  | int value => exact ReadsItems.of_operand rfl fun previous => feeds_int value
  | float bits => exact ReadsItems.of_operand rfl fun previous => feeds_float bits
  | bool value =>
    exact ReadsItems.of_operand (by cases value <;> decide) fun previous => feeds_bool value
  | str text => exact ReadsItems.of_operand rfl fun previous => feeds_literal text
  | null => exact ReadsItems.of_operand (by decide) fun previous => feeds_null
  | access callee => exact (callee.reads b level k h).items
  | unary op operand =>
    exact ReadsItems.front (Previous.endsOperand_unarySymbol op) (fun _ => feeds_unary op)
      (ReadsItems.parensIf _ (fun level => operand.reads b level k) h.2)
  | binary op left right =>
    obtain ⟨-, hleft, hright⟩ := h
    rw [Expr.tokens, Expr.fold, Expr.count, ← Nat.add_assoc]
    exact ReadsItems.between (Previous.endsOperand_symbol op) (fun _ _ => feeds_binary op)
      (ReadsItems.parensIf _ (fun level => left.reads b level k) hleft)
      (fun run => ReadsItems.parensIf { level with run := run }
        (fun level => right.reads b level (k + left.count)) hright)
  | compound op target value =>
    exact ReadsItems.between (Previous.endsOperand_compoundSymbol op.op)
      (fun _ _ _ => feeds_compound op.valid)
      (ReadsItems.of_operand (Previous.endsOperand_of_isIdentifier target.valid)
        fun previous => feeds_name target.valid)
      (fun run => ReadsItems.parensIf { level with run := run }
        (fun level => value.reads b level k) h.2)
  | ret value =>
    exact ReadsItems.front (by decide) (fun _ _ => feeds_return)
      (ReadsItems.parensIf _ (fun level => value.reads b level k) h.2)
  | function params body =>
    obtain ⟨hparams, hbody⟩ := h
    have hcount : k + (Expr.function params body).count =
        k + 1 + paramCount params + stmtCount body := by
      rw [Expr.count]
      omega
    rw [Expr.tokens, hcount]
    refine ReadsItems.of_inside (.token (.word "\x7d")) ?_
    refine feeds_def.cons ?_
    exact (feeds_openAnonymous.cons (feeds_params
      (params_read params _ _ (endsPart_inside_params b _ _ _) hparams)
      (mapM_paramOf_paramParts params (k + 1)))).append (feeds_anonymousBody
      (stmts_read body _ _ (separates_inside_block b _ _) hbody))
  | group inner => exact ReadsItems.parens (inner.reads b _ k h)
termination_by structural e

theorem args_read (args : List Expr) (b : Builder) (k : Nat) (hb : EndsPart b (.word ","))
    (h : argsShallow args) :
    ReadsParts b k (commas (argTokens args)) (listed (argNodes k args)) (k + argCount args) := by
  cases args with
  | nil => exact ReadsParts.nothing
  | cons e rest =>
    obtain ⟨he, hrest⟩ := h
    have hfirst : ReadsParts b k e.tokens [some (e.node k)] (k + e.count) :=
      (Expr.readsStatement he fun level => e.reads b level k).part
    have hothers := args_read rest b (k + e.count) hb hrest
    rw [argCount, ← Nat.add_assoc]
    cases rest with
    | nil => simpa [commas, argTokens, argNodes, listed, argCount] using hfirst
    | cons second rest => exact hfirst.append hb (by decide) hothers
termination_by structural args

theorem Parameter.reads (param : Parameter) (b : Builder) (k : Nat) (h : param.Shallow) :
    ReadsParts b k param.tokens [some (param.part k)] (k + param.count) := by
  cases param with
  | required name =>
    refine (ReadsStatement.of_run [.operand (.ident name.text .unresolved .nowhere)]
      (by rw [Run.assemble]; rfl) fun level previous _ _ => ?_).part
    exact ⟨_, feeds_name name.valid⟩
  | optional name value =>
    exact ((Expr.readsStatement h fun level => value.reads b level k).assign .plain name
      (value.node_span k)).part
termination_by structural param

theorem params_read (params : List Parameter) (b : Builder) (k : Nat)
    (hb : EndsPart b (.word ",")) (h : paramsShallow params) :
    ReadsParts b k (commas (paramTokens params)) (listed (paramParts k params))
      (k + paramCount params) := by
  cases params with
  | nil => exact ReadsParts.nothing
  | cons param rest =>
    obtain ⟨hparam, hrest⟩ := h
    have hfirst := param.reads b k hparam
    have hothers := params_read rest b (k + param.count) hb hrest
    rw [paramCount, ← Nat.add_assoc]
    cases rest with
    | nil => simpa [commas, paramTokens, paramParts, listed, paramCount] using hfirst
    | cons second rest => exact hfirst.append hb (by decide) hothers
termination_by structural params

theorem Stmt.reads (s : Stmt) (b : Builder) (k : Nat) (h : s.Shallow) :
    ∃ expectation, Settled expectation ∧
      ReadsStatement b k s.tokens (s.node k) expectation (k + s.count) := by
  cases s with
  | expr e => exact ⟨.any, Or.inl rfl, Expr.readsStatement h fun level => e.reads b level k⟩
  | assign decl target value =>
    obtain ⟨expectation, hsettled, hvalue⟩ := value.reads b k h
    exact ⟨expectation, hsettled, hvalue.assign decl target (value.node_span k)⟩
  | branch cond yes no =>
    obtain ⟨hcond, hyes, hno⟩ := h
    rw [Stmt.tokens, Stmt.node, Stmt.count, ← Nat.add_assoc, ← Nat.add_assoc]
    exact ⟨.otherwise, Or.inr rfl, ReadsStatement.of_items fun level previous hrun _ _ =>
      feeds_branch previous hrun
        (fun b => (Expr.readsStatement hcond fun level => cond.reads b level k).part)
        (fun level => stmts_read yes _ _ (separates_inside_block b _ _) hyes) (no.reads b _ hno)⟩
  | whileLoop cond body =>
    obtain ⟨hcond, hbody⟩ := h
    rw [Stmt.tokens, Stmt.node, Stmt.count, ← Nat.add_assoc]
    refine ⟨.otherwise, Or.inr rfl, ReadsStatement.of_items fun level previous hrun _ _ => ?_⟩
    refine ⟨_, _, ?_, (feeds_header .whileLoop hrun
      (Expr.readsStatement hcond fun level => cond.reads _ level k).part rfl).append (feeds_block hrun
        (stmts_read body _ _ (separates_inside_block b _ _) hbody))⟩
    simp [Level.item, Line.weldFrom, Line.takeOne, Node.span]
  | forLoop init cond step body =>
    obtain ⟨hinit, hcond, hstep, hbody⟩ := h
    have hcount : k + (Stmt.forLoop init cond step body).count =
        k + init.count + cond.count + step.count + stmtCount body := by
      rw [Stmt.count]
      omega
    rw [Stmt.tokens, Stmt.node, hcount]
    refine ⟨.otherwise, Or.inr rfl, ReadsStatement.of_items fun level previous hrun _ _ => ?_⟩
    have hends := endsPart_inside_header b level .forLoop
    refine ⟨_, _, ?_, (feeds_header .forLoop hrun
      (((init.reads _ k hinit).append hends rfl (cond.reads _ _ hcond)).append hends rfl
        (step.reads _ _ hstep)) rfl).append (feeds_block hrun
          (stmts_read body _ _ (separates_inside_block b _ _) hbody))⟩
    simp [Level.item, Line.weldFrom, Line.takeOne, Node.span]
  | define name params body =>
    obtain ⟨hparams, hbody⟩ := h
    rw [Stmt.tokens, Stmt.node, Stmt.count, ← Nat.add_assoc]
    refine ⟨.otherwise, Or.inr rfl, ReadsStatement.of_items fun level previous hrun _ _ => ?_⟩
    refine ⟨_, _, ?_, feeds_def.cons ((feeds_functionName name.valid hrun).cons
      ((feeds_openParams.cons (feeds_params
        (params_read params _ _ (endsPart_inside_params b _ _ _) hparams)
        (mapM_paramOf_paramParts params k))).append (feeds_namedBody
        (stmts_read body _ _ (separates_inside_block b _ _) hbody))))⟩
    simp [Level.item, Line.weldFrom, Line.takeOne, FunctionHead.complete, Node.span]
  | block body =>
    refine ⟨.otherwise, Or.inr rfl, ReadsStatement.of_items fun level previous hrun _ _ => ?_⟩
    exact ⟨_, _, rfl, feeds_block hrun (stmts_read body _ _ (separates_inside_block b _ _) h)⟩
  | breakLoop =>
    refine ⟨.any, Or.inl rfl, ReadsStatement.of_run [.operand (.breakLoop .nowhere)]
      (by rw [Run.assemble]; rfl) fun level previous _ _ => ?_⟩
    exact ⟨_, feeds_break⟩
  | continueLoop =>
    refine ⟨.any, Or.inl rfl, ReadsStatement.of_run [.operand (.continueLoop .nowhere)]
      (by rw [Run.assemble]; rfl) fun level previous _ _ => ?_⟩
    exact ⟨_, feeds_continue⟩
  | ret =>
    refine ⟨.any, Or.inl rfl, ReadsStatement.of_run
      [.operator .ret (effectivePrecedence returnPrecedence 0) .nowhere]
      (by rw [Run.assemble_of_reduce rfl, Run.assemble]; rfl) fun level previous hgroups _ => ?_⟩
    have hdepth : level.groups.length = 0 := by rw [hgroups]; rfl
    refine ⟨.token (.word "return"), ?_⟩
    have hfeeds : Feeds (b.placed level .any previous k) [.word "return"] _ := feeds_return
    rwa [Level.operator, hdepth] at hfeeds
termination_by structural s

theorem stmts_read (body : List Stmt) (b : Builder) (k : Nat) (hb : Separates b)
    (h : stmtsShallow body) :
    ReadsLines b k (semicolons (stmtTokens body)) (stmtNodes k body) (k + stmtCount body) := by
  cases body with
  | nil => exact ReadsLines.nothing
  | cons s rest =>
    obtain ⟨hs, hrest⟩ := h
    obtain ⟨expectation, hsettled, hfirst⟩ := s.reads b k hs
    have hothers := stmts_read rest b (k + s.count) hb hrest
    rw [stmtCount, ← Nat.add_assoc]
    cases rest with
    | nil => simpa [semicolons, stmtTokens, stmtNodes, stmtCount] using hfirst.lines hsettled
    | cons second rest => exact (hfirst.lines hsettled).append hb hothers
termination_by structural body

theorem Otherwise.reads (no : Otherwise) (b : Builder) (k : Nat) (h : no.Shallow) :
    ReadsOtherwise b k no.tokens (no.node k) (k + no.count) := by
  cases no with
  | nothing => exact ReadsOtherwise.nothing
  | block body =>
    exact ReadsOtherwise.block fun level => stmts_read body _ k (separates_inside_block b _ _) h
  | branch cond yes no =>
    obtain ⟨hcond, hyes, hno⟩ := h
    rw [Otherwise.tokens, Otherwise.node, Otherwise.count, ← Nat.add_assoc, ← Nat.add_assoc]
    exact ReadsOtherwise.branch
      (fun b => (Expr.readsStatement hcond fun level => cond.reads b level k).part)
      (fun level => stmts_read yes _ _ (separates_inside_block b _ _) hyes) (no.reads b _ hno)
termination_by structural no

theorem Part.reads (part : Part) (b : Builder) (k : Nat) (h : part.Shallow) :
    ReadsParts b k part.tokens [part.node k] (k + part.count) := by
  cases part with
  | nothing => exact ReadsParts.nothing
  | expr e => exact (Expr.readsStatement h fun level => e.reads b level k).part
  | assign decl target value =>
    exact ((Expr.readsStatement h fun level => value.reads b level k).assign decl target
      (value.node_span k)).part
termination_by structural part

end

end Source

/-- Without positions the builder gives back the tree that was meant. -/
theorem Program.ofTokens_bare_written {tokens : List Token} {program : List Source.Stmt}
    (hkinds : (tokens.takeWhile (·.kind ≠ .eof)).map (·.kind) =
      Source.semicolons (Source.stmtTokens program))
    (hshallow : Source.stmtsShallow program) :
    Program.ofTokens (tokens.map Token.bare) = .ok { body := Source.stmtNodes 0 program } := by
  obtain ⟨level, expectation, previous, hsettled, hgroups, hclose, hfeeds⟩ :=
    Source.stmts_read program {} 0 Builder.separates_start hshallow [] .start rfl
  have htokens : (tokens.map Token.bare).takeWhile (·.kind ≠ .eof) =
      (Source.semicolons (Source.stmtTokens program)).map (⟨·, .nowhere⟩) := by
    rw [← hkinds, List.takeWhile_map, List.map_map]
    rfl
  have hfold : ((Source.semicolons (Source.stmtTokens program)).map
      (⟨·, .nowhere⟩)).foldlM Builder.feed {} = .ok _ := hfeeds
  rw [Program.ofTokens, htokens, hfold, ok_bind, Builder.finish_placed hgroups hsettled hclose,
    List.append_nil, List.reverse_reverse]

/-- **Reading a written program gives it back.** -/
theorem Program.ofTokens_written (tokens : List Token) (program : List Source.Stmt)
    (hkinds : (tokens.takeWhile (·.kind ≠ .eof)).map (·.kind) =
      Source.semicolons (Source.stmtTokens program))
    (hshallow : Source.stmtsShallow program) :
    ∃ p, Program.ofTokens tokens = .ok p ∧ p.bare = { body := Source.stmtNodes 0 program } := by
  have hbare := Program.ofTokens_bare_written hkinds hshallow
  rw [Program.ofTokens_bare] at hbare
  exact bareWith_eq_ok.mp hbare

/-- `f = (def(n) \x7b return n - (1 - x) \x7d); while (((f(2)(3)))) \x7b x += -4; break \x7d` -/
def Source.sample : List Source.Stmt :=
  let f : Name := ⟨"f", by decide⟩
  let n : Name := ⟨"n", by decide⟩
  let x : Name := ⟨"x", by decide⟩
  [.assign .plain f (.expr (.function [.required n]
      [.expr (.ret (.binary .sub (.access (.name n))
        (.binary .sub (.int 1) (.access (.name x)))))])),
    .whileLoop (.group (.group (.access (.call (.call (.name f) [.int 2]) [.int 3]))))
      [.expr (.compound ⟨.add, by decide⟩ x (.unary .neg (.int 4))), .breakLoop]]

theorem Program.ofTokens_written_sample :
    ∃ p, Program.ofTokens
        ([.word "f", .word "=", .word "(", .word "def", .word "(", .word "n", .word ")",
          .word "\x7b", .word "return", .word "n", .word "-", .word "(", .int 1, .word "-",
          .word "x", .word ")", .word "\x7d", .word ")", .separator, .word "while", .word "(",
          .word "(", .word "(", .word "f", .word "(", .int 2, .word ")", .word "(", .int 3,
          .word ")", .word ")", .word ")", .word ")", .word "\x7b", .word "x", .word "+=",
          .word "-", .int 4, .separator, .word "break", .word "\x7d", .eof].map (⟨·, ⟨3, 5⟩⟩)) =
        .ok p ∧ p.bare = { body := Source.stmtNodes 0 Source.sample } :=
  Program.ofTokens_written _ Source.sample (by decide +kernel)
    (by simp [Source.sample, Source.stmtsShallow, Source.Stmt.Shallow, Source.Expr.Shallow,
      Source.Callee.Shallow, Source.argsShallow, Source.paramsShallow, Source.Parameter.Shallow,
      Source.depthLimit, Source.under, Source.Expr.needsRight, Source.Expr.precedence,
      BinaryOp.precedence, UnaryOp.precedence, compoundPrecedence])

end SlotScript
