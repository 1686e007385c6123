import SlotScript.Proofs.Tree.Fold
import SlotScript.Proofs.Tree.Steps

/-!
# Changing a tree in what the builder does not look at

The builder moves spans, literals and the made-up names of functions about, and never asks what they
are. A `Change` says what becomes of each: every span may be moved, every literal may become a tree
of its own, and every function without a name may be called otherwise, by another way of numbering.

**Theorem (`ofTokens_change`).** If the tokens make a program, the changed tokens make the changed
program. If they do not, the changed tokens fail for the same reason, provided that no literal
becomes a name, a block or an assignment, which the builder would look into.

So each function of the builder commutes with a change, and there is one lemma for each, from the
fold of a run up to the whole program. A step that can fail commutes in the sense of
`Change.Follows`.
-/

namespace SlotScript

/-! ## Ways of numbering -/

/-- How functions without a name are numbered. -/
structure Numbering where
  /-- The number after a number. -/
  next : Nat → Nat
  /-- The name that a number makes. -/
  name : Nat → String

/-- One after the other: the builder's own way. -/
def Numbering.counted : Numbering := ⟨(· + 1), fun n => "anon#" ++ toString n⟩

/-- Not at all. -/
def Numbering.blank : Numbering := ⟨id, fun _ => ""⟩

namespace Builder

/-- `functionToken` with another way of numbering. -/
def functionTokenBy (numbering : Numbering) (b : Builder) (token : Token) (keyword : String)
    (span : Span) : Except BuildError Builder :=
  match nameOf? token with
  | some name => b.start (.params name keyword span)
  | none =>
    { b with anonymous := numbering.next b.anonymous }.openAt token keyword
      (.params (numbering.name b.anonymous) true) span

/-- `feed` with another way of numbering. -/
def feedBy (numbering : Numbering) (b : Builder) (token : Token) : Except BuildError Builder :=
  match b.expectation with
  | .function keyword span =>
    { b with previous := .token token.kind, expectation := .any }.functionTokenBy numbering token
      keyword span
  | _ => b.feed token

theorem feedBy_counted : feedBy .counted = feed := by
  funext b token
  rcases b with ⟨root, frames, expectation, previous, anonymous⟩
  cases expectation <;> rfl

end Builder

/-- `ofTokens` with another way of numbering. -/
def Program.ofTokensBy (numbering : Numbering) (tokens : List Token) :
    Except BuildError Program := do
  let b ← (tokens.takeWhile (·.kind ≠ .eof)).foldlM (Builder.feedBy numbering) {}
  b.finish ((tokens.find? (·.kind = .eof)).map (·.span))

theorem Program.ofTokensBy_counted : Program.ofTokensBy .counted = Program.ofTokens := by
  funext tokens
  rw [Program.ofTokensBy, Builder.feedBy_counted, Program.ofTokens]

/-! ## Changes -/

/-- What becomes of spans, of literals, and of functions without a name. -/
structure Change where
  /-- Where a place goes. -/
  span : Span → Span
  /-- The tree that a literal becomes. -/
  literal : String → Span → Node
  /-- What a function without a name is called. -/
  name : String → String
  /-- The number that a number of such functions becomes. -/
  count : Nat → Nat
  /-- How they are numbered then. -/
  numbering : Numbering
  span_merge (a b : Span) : span (a.merge b) = (span a).merge (span b)
  span_origin : span ⟨0, 0⟩ = ⟨0, 0⟩
  span_literal (text : String) (place : Span) : (literal text place).span = span place
  name_counted (n : Nat) : name (Numbering.counted.name n) = numbering.name (count n)
  count_zero : count 0 = 0
  count_succ (n : Nat) : count (n + 1) = numbering.next (count n)

/-- Whether the builder looks into an operand: it may take a name for a target or a parameter, an
assignment for a parameter, and a block for a body. -/
def Node.isOpen : Node → Bool
  | .ident .. | .block .. | .assign _ _ .plain none _ _ => true
  | _ => false

/-- No literal becomes a tree that the builder looks into. -/
def Change.Solid (c : Change) : Prop := ∀ text place, (c.literal text place).isOpen = false

/-- A token that is not a literal, or one that stays a literal. -/
def Change.Keeps (c : Change) (kind : TokenKind) : Prop :=
  ∀ text, kind = .literal text → ∀ place, c.literal text place = .str text (c.span place)

section

variable (c : Change)

mutual

/-- The changed node. -/
def Node.change : Node → Node
  | .int value span => .int value (c.span span)
  | .float bits span => .float bits (c.span span)
  | .bool value span => .bool value (c.span span)
  | .str text span => c.literal text span
  | .null span => .null (c.span span)
  | .ident name var span => .ident name var (c.span span)
  | .unary op operand span => .unary op operand.change (c.span span)
  | .binary op left right span => .binary op left.change right.change (c.span span)
  | .assign target var decl op value span => .assign target var decl op value.change (c.span span)
  | .branch cond yes no yesShape noShape span =>
    .branch cond.change yes.change (changeOption no) yesShape noShape (c.span span)
  | .whileLoop cond body header bodyShape span =>
    .whileLoop cond.change body.change header bodyShape (c.span span)
  | .forLoop init cond step body header bodyShape span =>
    .forLoop (changeOption init) (changeOption cond) (changeOption step) body.change header
      bodyShape (c.span span)
  | .define name binding params body frame span =>
    .define (if binding.isNone then c.name name else name) binding (changeParams params)
      body.change frame (c.span span)
  | .call callee args span => .call callee.change (changeNodes args) (c.span span)
  | .block body span => .block (changeNodes body) (c.span span)
  | .breakLoop span => .breakLoop (c.span span)
  | .continueLoop span => .continueLoop (c.span span)
  | .ret value span => .ret (changeOption value) (c.span span)

/-- The changed part. -/
def changeOption : Option Node → Option Node
  | none => none
  | some node => some node.change

/-- The changed nodes. -/
def changeNodes : List Node → List Node
  | [] => []
  | node :: rest => node.change :: changeNodes rest

/-- The changed parameter. -/
def Param.change : Param → Param
  | .mk name default span => .mk name (changeOption default) (c.span span)

/-- The changed parameters. -/
def changeParams : List Param → List Param
  | [] => []
  | param :: rest => param.change :: changeParams rest

end

section

attribute [local simp] Node.change Param.change

@[simp] theorem changeOption_eq_map (part : Option Node) :
    changeOption c part = part.map (Node.change c) := by
  cases part <;> simp [changeOption]

@[simp] theorem changeNodes_eq_map (nodes : List Node) :
    changeNodes c nodes = nodes.map (Node.change c) := by
  induction nodes with
  | nil => simp [changeNodes]
  | cons node rest ih => simp [changeNodes, ih]

@[simp] theorem changeParams_eq_map (params : List Param) :
    changeParams c params = params.map (Param.change c) := by
  induction params with
  | nil => simp [changeParams]
  | cons param rest ih => simp [changeParams, ih]

@[simp] theorem Node.span_change (node : Node) : (node.change c).span = c.span node.span := by
  cases node with
  | str text place =>
    rw [Node.change]
    exact c.span_literal text place
  | _ => simp [Node.span]

end

/-- The changed error. -/
def BuildError.change (e : BuildError) : BuildError :=
  { fault := e.fault, span := c.span e.span, opened := e.opened.map c.span }

/-- The changed token. -/
def Token.change (token : Token) : Token := ⟨token.kind, c.span token.span⟩

/-- The changed program. -/
def Program.change (program : Program) : Program :=
  { program with body := program.body.map (Node.change c) }

/-- The changed item, with its precedence raised. -/
def RunItem.change (lift : Nat) : RunItem → RunItem
  | .operand node => .operand (node.change c)
  | .operator op p span => .operator op (p + lift) (c.span span)

/-- The changed head of a function with or without a name. -/
def FunctionHead.change (anonymous : Bool) (head : FunctionHead) : FunctionHead :=
  ⟨if anonymous then c.name head.name else head.name, head.params.map (Param.change c),
    c.span head.span⟩

/-- The changed item. -/
def Item.change : Item → Item
  | .node n => .node (n.change c)
  | .otherwise span => .otherwise (c.span span)
  | .assign target decl span => .assign target decl (c.span span)
  | .branch cond span => .branch (cond.change c) (c.span span)
  | .whileLoop cond span => .whileLoop (cond.change c) (c.span span)
  | .forLoop init cond step span =>
    .forLoop (init.map (Node.change c)) (cond.map (Node.change c)) (step.map (Node.change c))
      (c.span span)
  | .define head => .define (head.change c false)

/-- The changed level. -/
def Level.change (level : Level) : Level :=
  { run := level.run.map (RunItem.change c 0)
    items := level.items.map (Item.change c)
    lines := level.lines.map (Node.change c)
    parts := level.parts.map (Option.map (Node.change c))
    groups := level.groups.map c.span }

/-- The changed opener. -/
def Opener.change : Opener → Opener
  | .block head => .block (head.map (FunctionHead.change c true))
  | .call callee => .call (callee.change c)
  | .header construct => .header construct
  | .params name anonymous => .params (if anonymous then c.name name else name) anonymous

/-- The changed frame. -/
def Frame.change (frame : Frame) : Frame :=
  { opener := frame.opener.change c, span := c.span frame.span, level := frame.level.change c }

/-- The changed expectation. -/
def Expectation.change : Expectation → Expectation
  | .any => .any
  | .header construct span => .header construct (c.span span)
  | .function keyword span => .function keyword (c.span span)
  | .params name keyword span => .params name keyword (c.span span)
  | .body head anonymous close => .body (head.change c anonymous) anonymous (c.span close)
  | .target decl span => .target decl (c.span span)
  | .initializer decl name span => .initializer decl name (c.span span)
  | .otherwise => .otherwise

/-- The changed builder. -/
def Builder.change (b : Builder) : Builder :=
  { b with
    root := b.root.change c
    frames := b.frames.map (Frame.change c)
    expectation := b.expectation.change c
    anonymous := c.count b.anonymous }

end

/-! ## Steps that can fail -/

/-- What the changed step does: it returns what the step returns, changed, and fails as the step
fails if the builder looks into no changed literal. -/
def Change.Follows (c : Change) {α β : Type} (f : α → β) (x : Except BuildError α)
    (y : Except BuildError β) : Prop :=
  match x with
  | .ok a => y = .ok (f a)
  | .error e => c.Solid → y = .error (e.change c)

namespace Change

variable {c : Change} {α β γ δ : Type} {f : α → β} {g : γ → δ}

theorem follows_ok {a : α} {y : β} (h : y = f a) : c.Follows f (.ok a) (.ok y) :=
  congrArg Except.ok h

theorem follows_error {e e' : BuildError} (h : e' = e.change c) :
    c.Follows f (.error e) (.error e') :=
  fun _ => congrArg Except.error h

/-- Steps that follow a change can be chained. -/
theorem Follows.bind {x : Except BuildError α} {y : Except BuildError β}
    {k : α → Except BuildError γ} {l : β → Except BuildError δ} (hx : c.Follows f x y)
    (hk : ∀ a, c.Follows g (k a) (l (f a))) : c.Follows g (x >>= k) (y >>= l) := by
  cases x with
  | ok a =>
    obtain rfl : y = .ok (f a) := hx
    exact hk a
  | error e =>
    intro hsolid
    rw [hx hsolid]
    rfl

theorem Follows.map {x : Except BuildError α} {y : Except BuildError β} {k : α → γ} {l : β → δ}
    (hx : c.Follows f x y) (hk : ∀ a, l (f a) = g (k a)) : c.Follows g (x.map k) (y.map l) := by
  cases x with
  | ok a =>
    obtain rfl : y = .ok (f a) := hx
    exact congrArg Except.ok (hk a)
  | error e =>
    intro hsolid
    rw [hx hsolid]
    rfl

theorem follows_mapM {k : α → Except BuildError γ} {l : β → Except BuildError δ}
    (hk : ∀ a, c.Follows g (k a) (l (f a))) (xs : List α) :
    c.Follows (List.map g) (xs.mapM k) ((xs.map f).mapM l) := by
  induction xs with
  | nil => rfl
  | cons a rest ih =>
    simp only [List.map_cons, List.mapM_cons]
    exact (hk a).bind fun b => ih.bind fun bs => rfl

end Change

/-! ## Runs and lines -/

namespace Run

variable (c : Change) (lift : Nat)

theorem compoundNode_change (op : BinaryOp) (target value : Node) (span : Span) :
    c.Follows (Node.change c) (compoundNode op target value span)
      (compoundNode op (target.change c) (value.change c) (c.span span)) := by
  cases target with
  | ident name var place =>
    refine Change.follows_ok ?_
    simp only [Node.change, c.span_merge, Node.span_change]
    rfl
  | str text place =>
    intro hsolid
    have hopen := hsolid text place
    have hplace := c.span_literal text place
    rw [Node.change]
    cases hnode : c.literal text place with
    | ident name var span => simp [hnode, Node.isOpen] at hopen
    | _ => simp_all [compoundNode, BuildError.change, Node.span]
  | _ => exact Change.follows_error (by simp [BuildError.change])

/-- The first ready operator of the changed run is the changed one. -/
theorem headRedex_change (run : Run) :
    match headRedex run with
    | none => headRedex (run.map (RunItem.change c lift)) = none
    | some (p, node, rest) => ∃ node', headRedex (run.map (RunItem.change c lift)) =
        some (p + lift, node', rest.map (RunItem.change c lift)) ∧
        c.Follows (Node.change c) node node' := by
  rcases run with _ | ⟨_ | ⟨op, p, span⟩, rest⟩
  · rfl
  · rcases rest with _ | ⟨_ | ⟨op, p, span⟩, _ | ⟨_ | _, rest⟩⟩
    · rfl
    · rfl
    · simp [RunItem.change, headRedex]
    · simp [RunItem.change, headRedex]
    · cases op <;> rfl
    · cases op with
      | binary op =>
        refine ⟨_, rfl, Change.follows_ok ?_⟩
        simp [Node.change, c.span_merge]
      | compound op => exact ⟨_, rfl, compoundNode_change c op _ _ span⟩
      | _ => rfl
    · cases op <;> simp [RunItem.change, headRedex]
  · rcases rest with _ | ⟨_ | _, rest⟩
    · cases op with
      | ret => exact ⟨_, rfl, Change.follows_ok (by simp [Node.change])⟩
      | _ => rfl
    · cases op with
      | unary op => exact ⟨_, rfl, Change.follows_ok (by simp [Node.change, c.span_merge])⟩
      | ret => exact ⟨_, rfl, Change.follows_ok (by simp [Node.change, c.span_merge])⟩
      | _ => rfl
    · cases op <;> simp [RunItem.change, headRedex]

theorem reduce_change (run : Run) :
    match reduce run with
    | none => reduce (run.map (RunItem.change c lift)) = none
    | some (p, after) => ∃ after', reduce (run.map (RunItem.change c lift)) =
        some (p + lift, after') ∧ c.Follows (List.map (RunItem.change c lift)) after after' := by
  induction run with
  | nil => rfl
  | cons item rest ih =>
    have hhead := headRedex_change c lift (item :: rest)
    rw [List.map_cons] at hhead ⊢
    rw [reduce, reduce]
    rcases hredex : headRedex (item :: rest) with _ | ⟨p, node, after⟩ <;> rw [hredex] at hhead
    · rw [hhead]
      rcases hrest : reduce rest with _ | ⟨q, out⟩ <;> rw [hrest] at ih
      · rw [ih]
        rfl
      · obtain ⟨out', hout, hfollows⟩ := ih
        rw [hout]
        exact ⟨_, rfl, hfollows.map fun _ => rfl⟩
    · obtain ⟨node', hnode, hfollows⟩ := hhead
      rw [hnode]
      rcases hrest : reduce rest with _ | ⟨q, out⟩ <;> rw [hrest] at ih
      · rw [ih]
        exact ⟨_, rfl, hfollows.map fun _ => rfl⟩
      · obtain ⟨out', hout, hlater⟩ := ih
        rw [hout]
        by_cases hlt : p < q
        · simp only [Option.map_some, if_pos hlt, Nat.add_lt_add_iff_right]
          exact ⟨_, rfl, hlater.map fun _ => rfl⟩
        · simp only [Option.map_some, if_neg hlt, Nat.add_lt_add_iff_right]
          exact ⟨_, rfl, hfollows.map fun _ => rfl⟩

theorem span_change (item : RunItem) : (item.change c lift).span = c.span item.span := by
  cases item <;> simp [RunItem.change, RunItem.span]

theorem stuck_change (run : Run) :
    stuck (run.map (RunItem.change c lift)) = (stuck run).change c := by
  have hop : RunItem.isOperator ∘ RunItem.change c lift = RunItem.isOperator := by
    funext item
    cases item <;> rfl
  unfold stuck
  rw [List.find?_map, hop, List.getElem?_map]
  cases run.find? RunItem.isOperator with
  | some item => simp [BuildError.change, span_change]
  | none => cases run[1]? <;> simp [BuildError.change, span_change, c.span_origin]

theorem assemble_change (run : Run) :
    c.Follows (Node.change c) (assemble run) (assemble (run.map (RunItem.change c lift))) := by
  fun_induction assemble run with
  | case1 node => simp [Change.Follows, RunItem.change, assemble]
  | case2 run hrun hreduce =>
    have hchange := reduce_change c lift run
    rw [hreduce] at hchange
    rw [assemble_of_reduce_none hchange, stuck_change]
    · exact Change.follows_error rfl
    · intro node hnode
      obtain ⟨item, hitem, hchanged⟩ := List.map_eq_singleton_iff.mp hnode
      cases item with
      | operand n => exact hrun n hitem
      | operator => cases hchanged
  | case3 run hrun p e hreduce =>
    have hchange := reduce_change c lift run
    rw [hreduce] at hchange
    obtain ⟨out, hout, hfollows⟩ := hchange
    intro hsolid
    rw [hfollows hsolid] at hout
    exact assemble_of_reduce_error hout
  | case4 run hrun p after hreduce ih =>
    have hchange := reduce_change c lift run
    rw [hreduce] at hchange
    obtain ⟨out, hout, hfollows⟩ := hchange
    obtain rfl : out = .ok (after.map (RunItem.change c lift)) := hfollows
    rw [assemble_of_reduce hout]
    exact ih

end Run

@[simp] theorem Item.admitsElse_change (c : Change) (item : Item) :
    (item.change c).admitsElse = item.admitsElse := by
  cases item <;> rfl

theorem FunctionHead.complete_change (c : Change) (head : FunctionHead)
    (binding : Option VarRef) (body : Node) :
    c.Follows (Node.change c) (head.complete binding body)
      ((head.change c binding.isNone).complete binding (body.change c)) := by
  cases body with
  | block body span =>
    rw [Node.change]
    refine Change.follows_ok ?_
    simp only [Node.change, FunctionHead.change, c.span_merge, changeParams_eq_map]
    rfl
  | str text place =>
    intro hsolid
    have hopen := hsolid text place
    have hplace := c.span_literal text place
    rw [Node.change]
    cases hnode : c.literal text place with
    | block body span => simp [hnode, Node.isOpen] at hopen
    | _ => simp_all [complete, BuildError.change, Node.span]
  | _ => exact Change.follows_error (by simp [BuildError.change])

namespace Line

variable (c : Change)

theorem takeOne_change (missing : Missing) (span : Span) (nodes : List Node) :
    c.Follows (Node.change c) (takeOne missing span nodes)
      (takeOne missing (c.span span) (nodes.map (Node.change c))) := by
  rcases nodes with _ | ⟨first, _ | ⟨second, rest⟩⟩
  · exact Change.follows_error rfl
  · exact Change.follows_ok rfl
  · exact Change.follows_error (by simp [BuildError.change])

/-- A changed `else` branch. -/
def changeElse : Option (Node × Span) → Option (Node × Span) :=
  Option.map (Prod.map (Node.change c) c.span)

theorem weldFrom_change (waiting : List Node) (otherwise : Option (Node × Span))
    (items : List Item) :
    c.Follows (Option.map (Node.change c)) (weldFrom waiting otherwise items)
      (weldFrom (waiting.map (Node.change c)) (changeElse c otherwise)
        (items.map (Item.change c))) := by
  induction items generalizing waiting otherwise with
  | nil =>
    rcases otherwise with _ | ⟨branch, span⟩
    · rcases waiting with _ | ⟨first, _ | ⟨second, rest⟩⟩
      · rfl
      · rfl
      · exact Change.follows_error (by simp [BuildError.change])
    · exact Change.follows_error rfl
  | cons item rest ih =>
    have hone : ∀ {node n}, n = node.change c → c.Follows (Option.map (Node.change c))
        (weldFrom [node] none rest) (weldFrom [n] none (rest.map (Item.change c))) := by
      rintro node n rfl
      exact ih [node] none
    -- An `else` branch only passes expressions and the head of an `if`.
    cases hadmits : item.admitsElse with
    | false =>
      rcases otherwise with _ | ⟨branch, span⟩
      · cases item with
        | otherwise span =>
          exact (takeOne_change c _ span waiting).bind fun branch => ih [] (some (branch, span))
        | assign target decl span =>
          refine (takeOne_change c _ span waiting).bind fun value => ?_
          exact hone (by simp [Node.change, c.span_merge])
        | whileLoop cond span =>
          refine (takeOne_change c _ span waiting).bind fun body => ?_
          exact hone (by simp [Node.change, c.span_merge])
        | forLoop init cond step span =>
          refine (takeOne_change c _ span waiting).bind fun body => ?_
          exact hone (by simp [Node.change, c.span_merge])
        | define head =>
          refine (takeOne_change c _ head.span waiting).bind fun body => ?_
          exact (head.complete_change c (some .unresolved) body).bind fun node => ih [node] none
        | _ => cases hadmits
      · simp [weldFrom, changeElse, hadmits, Change.Follows, BuildError.change]
    | true =>
      cases item with
      | node n =>
        rcases otherwise with _ | other
        · exact ih (n :: waiting) none
        · exact ih (n :: waiting) (some other)
      | branch cond span =>
        rcases otherwise with _ | ⟨no, place⟩
        · refine (takeOne_change c _ span waiting).bind fun yes => ?_
          exact hone (by simp [Node.change, changeElse, c.span_merge])
        · refine (takeOne_change c _ span waiting).bind fun yes => ?_
          exact hone (by simp [Node.change, changeElse, c.span_merge])
      | _ => cases hadmits

theorem weld_change (items : List Item) :
    c.Follows (Option.map (Node.change c)) (weld items) (weld (items.map (Item.change c))) :=
  weldFrom_change c [] none items

end Line

/-! ## Levels -/

namespace Level

variable (c : Change)

theorem closeExpression_change (level : Level) :
    c.Follows (Level.change c) level.closeExpression (level.change c).closeExpression := by
  rcases level with ⟨_ | ⟨item, run⟩, items, lines, parts, groups⟩
  · rfl
  · have hrun := Run.assemble_change c 0 (item :: run).reverse
    rw [List.map_reverse] at hrun
    exact hrun.bind fun node => rfl

theorem closeLine_change (level : Level) :
    c.Follows (Level.change c) level.closeLine (level.change c).closeLine := by
  refine (closeExpression_change c level).bind fun level => ?_
  refine (Line.weld_change c level.items).bind fun line => ?_
  cases line <;> rfl

theorem partOfLines_change (lines : List Node) :
    c.Follows (Option.map (Node.change c)) (partOfLines lines)
      (partOfLines (lines.map (Node.change c))) := by
  rcases lines with _ | ⟨first, _ | ⟨second, rest⟩⟩
  · rfl
  · rfl
  · exact Change.follows_error (by simp [BuildError.change])

theorem closePart_change (level : Level) :
    c.Follows (Level.change c) level.closePart (level.change c).closePart := by
  refine (closeLine_change c level).bind fun level => ?_
  have hpart := partOfLines_change c level.lines.reverse
  rw [List.map_reverse] at hpart
  exact hpart.bind fun part => rfl

theorem listParts_change (missing : Missing) (close : Span) (parts : List (Option Node)) :
    c.Follows (List.map (Node.change c)) (listParts missing close parts)
      (listParts missing (c.span close) (parts.map (Option.map (Node.change c)))) := by
  by_cases h : parts = [none]
  · subst h
    rfl
  · have h' : parts.map (Option.map (Node.change c)) ≠ [none] := by
      intro heq
      obtain ⟨part, hpart, hnone⟩ := List.map_eq_singleton_iff.mp heq
      rw [Option.map_eq_none_iff] at hnone
      exact h (hnone ▸ hpart)
    rw [listParts_eq_mapM missing _ h, listParts_eq_mapM missing _ h']
    refine Change.follows_mapM (fun part => ?_) parts
    cases part with
    | none => exact Change.follows_error rfl
    | some node => rfl

end Level

/-! ## The builder -/

namespace Builder

variable (c : Change) (b : Builder)

@[simp] theorem level_change : (b.change c).level = b.level.change c := by
  rcases b with ⟨root, _ | ⟨frame, outer⟩, expectation, previous, anonymous⟩ <;> rfl

@[simp] theorem opener?_change : (b.change c).opener? = b.opener?.map (Opener.change c) := by
  rcases b with ⟨root, _ | ⟨frame, outer⟩, expectation, previous, anonymous⟩ <;> rfl

theorem setLevel_change (level : Level) :
    (b.change c).setLevel (level.change c) = (b.setLevel level).change c := by
  rcases b with ⟨root, _ | ⟨frame, outer⟩, expectation, previous, anonymous⟩ <;> rfl

theorem mapLevel_change {f g : Level → Level}
    (h : ∀ level, g (level.change c) = (f level).change c) :
    (b.change c).mapLevel g = (b.mapLevel f).change c := by
  rw [mapLevel, level_change, h, setLevel_change, mapLevel]

theorem tryLevel_change {f : Level → Except BuildError Level}
    (h : ∀ level, c.Follows (Level.change c) (f level) (f (level.change c))) :
    c.Follows (Builder.change c) (b.tryLevel f) ((b.change c).tryLevel f) := by
  rw [tryLevel, tryLevel, level_change]
  exact (h b.level).bind fun level => Change.follows_ok (b.setLevel_change c level)

theorem operand_change (node : Node) :
    (b.change c).operand (node.change c) = (b.operand node).change c :=
  b.mapLevel_change c fun _ => rfl

theorem operator_change (op : Operator) (base : Nat) (span : Span) :
    (b.change c).operator op base (c.span span) = (b.operator op base span).change c := by
  refine b.mapLevel_change c fun level => ?_
  simp [Level.operator, Level.change, RunItem.change]

theorem openParen_change (previous : Previous) (span : Span) :
    (b.change c).openParen previous (c.span span) = (b.openParen previous span).change c := by
  have hrun : (b.change c).level.run = b.level.run.map (RunItem.change c 0) := by
    rw [level_change]
    rfl
  have hgroup : ((b.change c).mapLevel fun level =>
      { level with groups := c.span span :: level.groups }) =
      (b.mapLevel fun level => { level with groups := span :: level.groups }).change c :=
    b.mapLevel_change c fun _ => rfl
  unfold openParen
  rw [hrun]
  rcases b.level.run with _ | ⟨callee | _, rest⟩
  · exact hgroup
  · cases previous.isCallable with
    | false => exact hgroup
    | true =>
      have hcall : ((b.change c).mapLevel fun level =>
          { level with run := rest.map (RunItem.change c 0) }) =
          (b.mapLevel fun level => { level with run := rest }).change c :=
        b.mapLevel_change c fun _ => rfl
      simp only [List.map_cons, RunItem.change, Node.span_change, ← c.span_merge, hcall]
      rfl
  · exact hgroup

theorem finishCall_change (callee : Node) (opening close : Span) (level : Level) :
    c.Follows (Builder.change c) (b.finishCall callee opening close level)
      ((b.change c).finishCall (callee.change c) (c.span opening) (c.span close)
        (level.change c)) := by
  refine (Level.closePart_change c level).bind fun level => ?_
  have hparts := Level.listParts_change c .argument close level.parts.reverse
  rw [List.map_reverse] at hparts
  refine hparts.bind fun args => Change.follows_ok ?_
  have hcall := b.operand_change c (.call callee args (opening.merge close))
  rw [Node.change, changeNodes_eq_map, c.span_merge] at hcall
  exact congrArg (fun b : Builder => { b with previous := .closedCall }) hcall

theorem headerItem_change (construct : Construct) (span close : Span)
    (parts : List (Option Node)) :
    c.Follows (Item.change c) (headerItem construct span close parts)
      (headerItem construct (c.span span) (c.span close)
        (parts.map (Option.map (Node.change c)))) := by
  rcases parts with _ | ⟨_ | cond, _ | ⟨second, _ | ⟨third, _ | ⟨fourth, rest⟩⟩⟩⟩ <;>
    cases construct <;>
    simp [headerItem.eq_def, Change.Follows, BuildError.change, Item.change, c.span_merge]

theorem finishHeader_change (construct : Construct) (span close : Span) (level : Level) :
    c.Follows (Builder.change c) (b.finishHeader construct span close level)
      ((b.change c).finishHeader construct (c.span span) (c.span close) (level.change c)) := by
  refine (Level.closePart_change c level).bind fun level => ?_
  have hitem := headerItem_change c construct span close level.parts.reverse
  rw [List.map_reverse] at hitem
  refine hitem.bind fun item => Change.follows_ok ?_
  have hitem : (b.change c).mapLevel (·.item (item.change c)) =
      (b.mapLevel (·.item item)).change c := b.mapLevel_change c fun _ => rfl
  exact congrArg (fun b : Builder => { b with previous := .closedHeader }) hitem

theorem paramOf_change (node : Node) :
    c.Follows (Param.change c) (paramOf node) (paramOf (node.change c)) := by
  cases node with
  | ident name var span =>
    rw [Node.change]
    exact Change.follows_ok (by simp [Param.change])
  | assign target var decl op value span =>
    rw [Node.change]
    cases decl <;> cases op <;>
      simp [paramOf, Change.Follows, Param.change, BuildError.change, Node.span]
  | str text place =>
    intro hsolid
    have hopen := hsolid text place
    have hplace := c.span_literal text place
    rw [Node.change]
    cases hnode : c.literal text place with
    | ident name var span => simp [hnode, Node.isOpen] at hopen
    | assign target var decl op value span =>
      cases decl <;> cases op <;> simp_all [paramOf, BuildError.change, Node.span, Node.isOpen]
    | _ => simp_all [paramOf, BuildError.change, Node.span]
  | _ => exact Change.follows_error (by simp [BuildError.change])

theorem finishParams_change (name : String) (anonymous : Bool) (span close : Span)
    (level : Level) :
    c.Follows (Builder.change c) (b.finishParams name anonymous span close level)
      ((b.change c).finishParams (if anonymous then c.name name else name) anonymous (c.span span)
        (c.span close) (level.change c)) := by
  refine (Level.closePart_change c level).bind fun level => ?_
  have hparts := Level.listParts_change c .parameter close level.parts.reverse
  rw [List.map_reverse] at hparts
  refine hparts.bind fun parts => ?_
  exact (Change.follows_mapM (paramOf_change c) parts).bind fun params => rfl

theorem finishBlock_change (head : Option FunctionHead) (opening close : Span) (level : Level) :
    c.Follows (Builder.change c) (b.finishBlock head opening close level)
      ((b.change c).finishBlock (head.map (FunctionHead.change c true)) (c.span opening)
        (c.span close) (level.change c)) := by
  refine (Level.closeLine_change c level).bind fun level => ?_
  have hblock : Node.block (level.change c).lines.reverse ((c.span opening).merge (c.span close)) =
      (Node.block level.lines.reverse (opening.merge close)).change c := by
    simp [Node.change, Level.change, c.span_merge]
  rw [hblock]
  cases head with
  | none =>
    have hitem : (b.change c).mapLevel
        (·.item (.node (Node.change c (.block level.lines.reverse (opening.merge close))))) =
        (b.mapLevel (·.item (.node (.block level.lines.reverse (opening.merge close))))).change c :=
      b.mapLevel_change c fun _ => rfl
    refine Change.follows_ok ?_
    rw [hitem]
    rfl
  | some head =>
    refine (head.complete_change c none _).bind fun node => ?_
    exact Change.follows_ok (b.operand_change c node)

theorem groups_change : (b.change c).level.groups = b.level.groups.map c.span := by
  rw [level_change]
  rfl

theorem closeParen_change (span : Span) :
    c.Follows (Builder.change c) (b.closeParen span) ((b.change c).closeParen (c.span span)) := by
  have hgroups := b.groups_change c
  unfold closeParen
  rw [hgroups]
  rcases b.level.groups with _ | ⟨opening, groups⟩
  · rcases b with ⟨root, _ | ⟨⟨opener, place, level⟩, outer⟩, expectation, previous, anonymous⟩
    · exact Change.follows_error rfl
    · let b : Builder := ⟨root, outer, expectation, previous, anonymous⟩
      cases opener with
      | call callee => exact b.finishCall_change c callee place span level
      | header construct => exact b.finishHeader_change c construct place span level
      | params name unnamed => exact b.finishParams_change c name unnamed place span level
      | block head => exact Change.follows_error rfl
  · exact Change.follows_ok (b.mapLevel_change c fun _ => rfl)

theorem openBrace_change (span : Span) :
    c.Follows (Builder.change c) (b.openBrace span) ((b.change c).openBrace (c.span span)) :=
  (b.tryLevel_change c (Level.closeExpression_change c)).bind fun _ => rfl

theorem closeBrace_change (span : Span) :
    c.Follows (Builder.change c) (b.closeBrace span) ((b.change c).closeBrace (c.span span)) := by
  have hgroups := b.groups_change c
  unfold closeBrace
  rw [hgroups]
  rcases b.level.groups with _ | ⟨opening, groups⟩
  · rcases b with ⟨root, _ | ⟨⟨opener, place, level⟩, outer⟩, expectation, previous, anonymous⟩
    · exact Change.follows_error rfl
    · let b : Builder := ⟨root, outer, expectation, previous, anonymous⟩
      cases opener with
      | block head => exact b.finishBlock_change c head place span level
      | _ => exact Change.follows_error rfl
  · exact Change.follows_error rfl

theorem endStatement_change :
    c.Follows (Builder.change c) b.endStatement (b.change c).endStatement := by
  unfold endStatement
  rw [groups_change]
  rcases b.level.groups with _ | ⟨opening, groups⟩
  · exact b.tryLevel_change c (Level.closeLine_change c)
  · exact Change.follows_error rfl

theorem semicolon_change (span : Span) :
    c.Follows (Builder.change c) (b.semicolon span) ((b.change c).semicolon (c.span span)) := by
  unfold semicolon
  rw [groups_change, opener?_change]
  rcases b.opener? with _ | opener
  · exact b.endStatement_change c
  · cases opener with
    | block head => exact b.endStatement_change c
    | header construct =>
      rcases b.level.groups with _ | ⟨opening, groups⟩
      · exact b.tryLevel_change c (Level.closePart_change c)
      · exact Change.follows_error rfl
    | _ => exact Change.follows_error rfl

theorem comma_change (span : Span) :
    c.Follows (Builder.change c) (b.comma span) ((b.change c).comma (c.span span)) := by
  unfold comma
  rw [groups_change, opener?_change]
  rcases b.opener? with _ | opener
  · exact Change.follows_error rfl
  · rcases b.level.groups with _ | ⟨opening, groups⟩
    · cases opener with
      | call callee => exact b.tryLevel_change c (Level.closePart_change c)
      | params name anonymous => exact b.tryLevel_change c (Level.closePart_change c)
      | _ => exact Change.follows_error rfl
    · cases opener <;> exact Change.follows_error rfl

theorem equals_change (span : Span) :
    c.Follows (Builder.change c) (b.equals span) ((b.change c).equals (c.span span)) := by
  have hrun : (b.change c).level.run = b.level.run.map (RunItem.change c 0) := by
    rw [level_change]
    rfl
  unfold equals
  rw [groups_change, hrun]
  rcases b.level.groups with _ | ⟨opening, groups⟩
  · rcases b.level.run with _ | ⟨node | ⟨op, p, place⟩, _ | ⟨second, rest⟩⟩
    · exact Change.follows_error rfl
    · cases node with
      | ident name var place =>
        rw [List.map_singleton, RunItem.change, Node.change]
        exact Change.follows_ok (b.mapLevel_change c fun _ => rfl)
      | str text place =>
        intro hsolid
        have hopen := hsolid text place
        have hplace := c.span_literal text place
        rw [List.map_singleton, RunItem.change, Node.change]
        cases hnode : c.literal text place with
        | ident name var span => simp [hnode, Node.isOpen] at hopen
        | _ => simp_all [BuildError.change, Node.span]
      | _ => exact Change.follows_error (by simp [BuildError.change])
    · cases node with
      | str text place =>
        rw [List.map_cons, RunItem.change, Node.change]
        cases c.literal text place <;> exact Change.follows_error rfl
      | _ => exact Change.follows_error rfl
    · exact Change.follows_error rfl
    · exact Change.follows_error rfl
  · exact Change.follows_error rfl

theorem otherwise_change (span : Span) :
    c.Follows (Builder.change c) (b.otherwise span) ((b.change c).otherwise (c.span span)) := by
  refine (b.tryLevel_change c (Level.closeExpression_change c)).bind fun b => ?_
  have hitems : (b.change c).level.items = b.level.items.map (Item.change c) := by
    rw [level_change]
    rfl
  rw [hitems]
  rcases b.level.items with _ | ⟨item, rest⟩
  · exact Change.follows_error rfl
  · cases item with
    | node n => exact Change.follows_ok (b.mapLevel_change c fun _ => rfl)
    | _ => exact Change.follows_error rfl

theorem start_change (expectation : Expectation) :
    c.Follows (Builder.change c) (b.start expectation)
      ((b.change c).start (expectation.change c)) :=
  (b.tryLevel_change c (Level.closeExpression_change c)).bind fun _ => rfl

theorem declareBare_change (decl : DeclKind) (name : String) (span : Span) :
    c.Follows (Builder.change c) (b.declareBare decl name span)
      ((b.change c).declareBare decl name (c.span span)) := by
  cases decl with
  | const => exact Change.follows_error rfl
  | _ => exact Change.follows_ok (b.mapLevel_change c fun _ => rfl)

theorem word_change (previous : Previous) (text : String) (span : Span) :
    c.Follows (Builder.change c) (b.word previous text span)
      ((b.change c).word previous text (c.span span)) := by
  unfold word
  cases Role.ofWord text with
  | openParen => exact Change.follows_ok (b.openParen_change c previous span)
  | closeParen => exact b.closeParen_change c span
  | openBrace => exact b.openBrace_change c span
  | closeBrace => exact b.closeBrace_change c span
  | comma => exact b.comma_change c span
  | equals => exact b.equals_change c span
  | construct construct => exact b.start_change c (.header construct span)
  | otherwise => exact b.otherwise_change c span
  | function => rfl
  | declare decl => exact b.start_change c (.target decl span)
  | ret => exact Change.follows_ok (b.operator_change c .ret returnPrecedence span)
  | breakLoop => exact Change.follows_ok (b.operand_change c (.breakLoop span))
  | continueLoop => exact Change.follows_ok (b.operand_change c (.continueLoop span))
  | bool value => exact Change.follows_ok (b.operand_change c (.bool value span))
  | null => exact Change.follows_ok (b.operand_change c (.null span))
  | unsupported => exact Change.follows_error rfl
  | minus =>
    cases previous.endsOperand with
    | true => exact Change.follows_ok (b.operator_change c (.binary .sub) _ span)
    | false => exact Change.follows_ok (b.operator_change c (.unary .neg) _ span)
  | unary op => exact Change.follows_ok (b.operator_change c (.unary op) _ span)
  | binary op => exact Change.follows_ok (b.operator_change c (.binary op) _ span)
  | compound op => exact Change.follows_ok (b.operator_change c (.compound op) _ span)
  | name => exact Change.follows_ok (b.operand_change c (.ident text .unresolved span))
  | unknown => exact Change.follows_error rfl

theorem handle_change (previous : Previous) (token : Token) (h : c.Keeps token.kind) :
    c.Follows (Builder.change c) (b.handle previous token)
      ((b.change c).handle previous (token.change c)) := by
  rcases token with ⟨kind, span⟩
  cases kind with
  | word text => exact b.word_change c previous text span
  | int value => exact Change.follows_ok (b.operand_change c (.int value span))
  | float bits => exact Change.follows_ok (b.operand_change c (.float bits span))
  | literal text =>
    refine Change.follows_ok ?_
    rw [← operand_change, Node.change, h text rfl span]
    rfl
  | separator => exact b.semicolon_change c span
  | eof => rfl

theorem openAt_change (token : Token) (keyword : String) (opener : Opener) (span : Span) :
    c.Follows (Builder.change c) (b.openAt token keyword opener span)
      ((b.change c).openAt (token.change c) keyword (opener.change c) (c.span span)) := by
  unfold openAt
  by_cases h : token.kind = .word "("
  · rw [if_pos h, if_pos (by exact h)]
    rfl
  · rw [if_neg h, if_neg (by exact h)]
    exact Change.follows_error rfl

theorem functionToken_change (token : Token) (keyword : String) (span : Span) :
    c.Follows (Builder.change c) (b.functionToken token keyword span)
      ((b.change c).functionTokenBy c.numbering (token.change c) keyword (c.span span)) := by
  unfold functionToken functionTokenBy
  rw [show nameOf? (token.change c) = nameOf? token from rfl]
  cases nameOf? token with
  | some name => exact b.start_change c (.params name keyword span)
  | none =>
    have hcount : ({ b with anonymous := b.anonymous + 1 } : Builder).change c =
        { b.change c with anonymous := c.numbering.next (b.change c).anonymous } := by
      simp [Builder.change, c.count_succ]
    have hname : c.name b.anonymousName = c.numbering.name (b.change c).anonymous :=
      c.name_counted b.anonymous
    rw [← hcount, ← hname]
    exact openAt_change c { b with anonymous := b.anonymous + 1 } token keyword
      (.params b.anonymousName true) span

theorem bodyToken_change (token : Token) (head : FunctionHead) (anonymous : Bool) :
    c.Follows (Builder.change c) (b.bodyToken token head anonymous)
      ((b.change c).bodyToken (token.change c) (head.change c anonymous) anonymous) := by
  unfold bodyToken
  rw [show (token.change c).kind = token.kind from rfl]
  by_cases h : token.kind ≠ .word "\x7b"
  · rw [if_pos h, if_pos h]
    exact Change.follows_error rfl
  · rw [if_neg h, if_neg h]
    cases anonymous with
    | true => rfl
    | false =>
      have hitem : (b.change c).mapLevel (·.item (.define (head.change c false))) =
          (b.mapLevel (·.item (.define head))).change c := b.mapLevel_change c fun _ => rfl
      exact Change.follows_ok (congrArg (·.push (.block none) (c.span token.span)) hitem)

theorem targetToken_change (token : Token) (decl : DeclKind) (span : Span) :
    c.Follows (Builder.change c) (b.targetToken token decl span)
      ((b.change c).targetToken (token.change c) decl (c.span span)) := by
  unfold targetToken
  rw [show nameOf? (token.change c) = nameOf? token from rfl]
  cases nameOf? token with
  | some name =>
    refine Change.follows_ok ?_
    rw [Token.change, ← c.span_merge]
    rfl
  | none => exact Change.follows_error rfl

theorem initializerToken_change (previous : Previous) (token : Token) (decl : DeclKind)
    (name : String) (span : Span) (h : c.Keeps token.kind) :
    c.Follows (Builder.change c) (b.initializerToken previous token decl name span)
      ((b.change c).initializerToken previous (token.change c) decl name (c.span span)) := by
  unfold initializerToken
  rw [show (token.change c).kind = token.kind from rfl]
  by_cases heq : token.kind = .word "="
  · rw [if_pos heq, if_pos heq]
    exact Change.follows_ok (b.mapLevel_change c fun _ => rfl)
  · rw [if_neg heq, if_neg heq]
    exact (b.declareBare_change c decl name span).bind fun b => b.handle_change c previous token h

theorem otherwiseToken_change (previous : Previous) (token : Token) (h : c.Keeps token.kind) :
    c.Follows (Builder.change c) (b.otherwiseToken previous token)
      ((b.change c).otherwiseToken previous (token.change c)) := by
  unfold otherwiseToken
  rw [show (token.change c).kind = token.kind from rfl]
  by_cases helse : token.kind = .word "else"
  · rw [if_pos helse, if_pos helse]
    exact b.handle_change c previous token h
  · rw [if_neg helse, if_neg helse]
    exact (b.tryLevel_change c (Level.closeLine_change c)).bind fun b =>
      b.handle_change c previous token h

/-- Reading a token commutes with a change. -/
theorem feed_change (token : Token) (h : c.Keeps token.kind) :
    c.Follows (Builder.change c) (b.feed token)
      ((b.change c).feedBy c.numbering (token.change c)) := by
  rcases b with ⟨root, frames, expectation, previous, anonymous⟩
  let b : Builder := ⟨root, frames, .any, .token token.kind, anonymous⟩
  cases expectation with
  | any => exact b.handle_change c previous token h
  | header construct span => exact b.openAt_change c token construct.keyword (.header construct) span
  | function keyword span => exact b.functionToken_change c token keyword span
  | params name keyword span => exact b.openAt_change c token keyword (.params name false) span
  | body head unnamed close => exact b.bodyToken_change c token head unnamed
  | target decl span => exact b.targetToken_change c token decl span
  | initializer decl name span => exact b.initializerToken_change c previous token decl name span h
  | otherwise => exact b.otherwiseToken_change c previous token h

/-- Reading tokens commutes with a change. -/
theorem foldlM_feed_change (tokens : List Token) (h : ∀ token ∈ tokens, c.Keeps token.kind) :
    c.Follows (Builder.change c) (tokens.foldlM feed b)
      ((tokens.map (Token.change c)).foldlM (feedBy c.numbering) (b.change c)) := by
  induction tokens generalizing b with
  | nil => rfl
  | cons token rest ih =>
    rw [List.map_cons, List.foldlM_cons, List.foldlM_cons]
    exact (b.feed_change c token (h token List.mem_cons_self)).bind fun b =>
      ih b fun token htoken => h token (List.mem_cons_of_mem _ htoken)

theorem settle_change (ending : Option Span) :
    c.Follows (Builder.change c) (b.settle ending)
      ((b.change c).settle (ending.map c.span)) := by
  rcases b with ⟨root, frames, expectation, previous, anonymous⟩
  let b : Builder := ⟨root, frames, expectation, previous, anonymous⟩
  cases expectation with
  | any => rfl
  | initializer decl name span => exact b.declareBare_change c decl name span
  | otherwise => exact b.tryLevel_change c (Level.closeLine_change c)
  | _ => cases ending <;> exact Change.follows_error rfl

theorem finish_change (ending : Option Span) :
    c.Follows (Program.change c) (b.finish ending)
      ((b.change c).finish (ending.map c.span)) := by
  refine (b.settle_change c ending).bind fun b => ?_
  rcases b with ⟨⟨run, items, lines, parts, _ | ⟨opening, groups⟩⟩,
    _ | ⟨⟨opener, place, level⟩, outer⟩, expectation, previous, anonymous⟩
  · refine (Level.closeLine_change c _).bind fun root => ?_
    exact Change.follows_ok (by simp [Program.change, Level.change])
  · cases opener <;> exact Change.follows_error rfl
  · exact Change.follows_error rfl
  · cases opener <;> exact Change.follows_error rfl

end Builder

/-- **The program of changed tokens is the changed program.** -/
theorem Program.ofTokens_change (c : Change) (tokens : List Token)
    (h : ∀ token ∈ tokens, c.Keeps token.kind) :
    c.Follows (Program.change c) (Program.ofTokens tokens)
      (Program.ofTokensBy c.numbering (tokens.map (Token.change c))) := by
  unfold Program.ofTokens Program.ofTokensBy
  have hwhile : (tokens.map (Token.change c)).takeWhile (·.kind ≠ .eof) =
      (tokens.takeWhile (·.kind ≠ .eof)).map (Token.change c) := List.takeWhile_map
  have hfind : (tokens.map (Token.change c)).find? (·.kind = .eof) =
      (tokens.find? (·.kind = .eof)).map (Token.change c) := List.find?_map
  have hstart : ({} : Builder).change c = {} := by
    simp [Builder.change, Level.change, Expectation.change, c.count_zero]
  have hread := Builder.foldlM_feed_change c {} (tokens.takeWhile (·.kind ≠ .eof)) fun token htoken =>
    h token ((List.takeWhile_prefix _).subset htoken)
  rw [hstart] at hread
  rw [hwhile, hfind]
  refine hread.bind fun b => ?_
  have hending := b.finish_change c ((tokens.find? (·.kind = .eof)).map (·.span))
  rw [Option.map_map] at hending ⊢
  exact hending

end SlotScript
