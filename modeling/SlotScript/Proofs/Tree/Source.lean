import SlotScript.Tree.Builder
import SlotScript.Proofs.Tree.Bare

/-!
# Programs as they are written

The programs that can be written down, with the choices that a writer has: `Expr` and `Stmt` are
the trees of the language, and `Expr.group` adds a pair of parentheses that nobody needs. Only
names can be assigned to, only names and calls can be called, bodies are blocks, and an `else`
branch is a block or another `if`.

* `tokens` writes a program down. An operand gets parentheses where precedence and left
  associativity need them; an anonymous function always does, and so does a compound assignment
  or a `return` that is an operand. Statements have a `;` between them.
* `node` is the tree that is meant, with no spans in it. A pair of parentheses leaves no trace,
  and the anonymous functions are numbered in the order of their keywords.
* `Shallow` says that no operator stands under more groups than precedences can count.
-/

namespace SlotScript.Source

/-- A word that can name a variable. -/
structure Name where
  /-- The word. -/
  text : String
  /-- It can name a variable. -/
  valid : isIdentifier text = true

/-- An operator that has a compound assignment. -/
structure CompoundOp where
  /-- The operator. -/
  op : BinaryOp
  /-- It has a compound assignment. -/
  valid : op ∈ BinaryOp.compounds

mutual

/-- What can be called. -/
inductive Callee where
  /-- A variable. -/
  | name (name : Name)
  /-- The result of a call. -/
  | call (callee : Callee) (args : List Expr)

/-- An expression. -/
inductive Expr where
  | int (value : Int64)
  | float (bits : UInt64)
  | bool (value : Bool)
  | str (text : String)
  | null
  /-- A variable or a call. -/
  | access (callee : Callee)
  | unary (op : UnaryOp) (operand : Expr)
  | binary (op : BinaryOp) (left right : Expr)
  /-- A compound assignment. -/
  | compound (op : CompoundOp) (target : Name) (value : Expr)
  /-- A `return` with a value. -/
  | ret (value : Expr)
  /-- A function without a name. -/
  | function (params : List Parameter) (body : List Stmt)
  /-- An expression in parentheses of its own. -/
  | group (inner : Expr)

/-- A parameter. -/
inductive Parameter where
  | required (name : Name)
  /-- A parameter with a default. -/
  | optional (name : Name) (value : Expr)

/-- A statement. -/
inductive Stmt where
  /-- An expression; a `return` with a value is one. -/
  | expr (e : Expr)
  /-- An assignment, or a declaration with its value. -/
  | assign (decl : DeclKind) (target : Name) (value : Stmt)
  | branch (cond : Expr) (yes : List Stmt) (no : Otherwise)
  | whileLoop (cond : Expr) (body : List Stmt)
  | forLoop (init cond step : Part) (body : List Stmt)
  /-- A function with a name. -/
  | define (name : Name) (params : List Parameter) (body : List Stmt)
  | block (body : List Stmt)
  | breakLoop
  | continueLoop
  /-- A `return` without a value. -/
  | ret

/-- What follows the first block of an `if`. -/
inductive Otherwise where
  | nothing
  | block (body : List Stmt)
  | branch (cond : Expr) (yes : List Stmt) (no : Otherwise)

/-- A part of the header of a `for`. -/
inductive Part where
  | nothing
  | expr (e : Expr)
  | assign (decl : DeclKind) (target : Name) (value : Expr)

end

/-! ## Writing a program down -/

/-- The name as a token. -/
def Name.token (name : Name) : TokenKind := .word name.text

/-- In parentheses. -/
def parens (kinds : List TokenKind) : List TokenKind := .word "(" :: kinds ++ [.word ")"]

/-- In parentheses if they are needed. -/
def parensIf (needed : Bool) (kinds : List TokenKind) : List TokenKind :=
  if needed then parens kinds else kinds

/-- In braces. -/
def braces (kinds : List TokenKind) : List TokenKind := .word "\x7b" :: kinds ++ [.word "\x7d"]

/-- With commas between. -/
def commas (parts : List (List TokenKind)) : List TokenKind := [.word ","].intercalate parts

/-- With semicolons between. -/
def semicolons (lines : List (List TokenKind)) : List TokenKind := [.separator].intercalate lines

/-- What stands before the value of an assignment. -/
def assignTokens (target : Name) : DeclKind → List TokenKind
  | .plain => [target.token, .word "="]
  | .var => [.word "var", target.token, .word "="]
  | .const => [.word "const", target.token, .word "="]

/-- How tightly the outermost operator binds; what has none, or is in parentheses, binds tighter
than every operator. -/
def Expr.precedence : Expr → Nat
  | .binary op _ _ => op.precedence
  | .unary op _ => op.precedence
  | .compound .. => compoundPrecedence
  | .ret _ => returnPrecedence
  | _ => groupWeight

/-- Whether an operand of an operator that binds with `p` needs parentheses on the left. -/
def Expr.needsLeft (p : Nat) (e : Expr) : Bool := e.precedence < p

/-- Whether an operand of an operator that binds with `p` needs parentheses on the right. -/
def Expr.needsRight (p : Nat) (e : Expr) : Bool := e.precedence ≤ p

mutual

/-- The callee as tokens. -/
def Callee.tokens : Callee → List TokenKind
  | .name name => [name.token]
  | .call callee args => callee.tokens ++ parens (commas (argTokens args))

/-- The expression as tokens. -/
def Expr.tokens : Expr → List TokenKind
  | .int value => [.int value]
  | .float bits => [.float bits]
  | .bool value => [.word (if value then "true" else "false")]
  | .str text => [.literal text]
  | .null => [.word "null"]
  | .access callee => callee.tokens
  | .unary op operand =>
    .word op.symbol :: parensIf (operand.needsLeft op.precedence) operand.tokens
  | .binary op left right =>
    parensIf (left.needsLeft op.precedence) left.tokens ++
      .word op.symbol :: parensIf (right.needsRight op.precedence) right.tokens
  | .compound op target value =>
    target.token :: .word op.op.compoundSymbol ::
      parensIf (value.needsRight compoundPrecedence) value.tokens
  | .ret value => .word "return" :: parensIf (value.needsRight compoundPrecedence) value.tokens
  | .function params body =>
    parens (.word "def" :: parens (commas (paramTokens params)) ++
      braces (semicolons (stmtTokens body)))
  | .group inner => parens inner.tokens

/-- The arguments as tokens. -/
def argTokens : List Expr → List (List TokenKind)
  | [] => []
  | e :: rest => e.tokens :: argTokens rest

/-- The parameter as tokens. -/
def Parameter.tokens : Parameter → List TokenKind
  | .required name => [name.token]
  | .optional name value => assignTokens name .plain ++ value.tokens

/-- The parameters as tokens. -/
def paramTokens : List Parameter → List (List TokenKind)
  | [] => []
  | param :: rest => param.tokens :: paramTokens rest

/-- The statement as tokens. -/
def Stmt.tokens : Stmt → List TokenKind
  | .expr e => e.tokens
  | .assign decl target value => assignTokens target decl ++ value.tokens
  | .branch cond yes no =>
    .word "if" :: parens cond.tokens ++ braces (semicolons (stmtTokens yes)) ++ no.tokens
  | .whileLoop cond body =>
    .word "while" :: parens cond.tokens ++ braces (semicolons (stmtTokens body))
  | .forLoop init cond step body =>
    .word "for" :: parens (init.tokens ++ .separator :: cond.tokens ++ .separator :: step.tokens) ++
      braces (semicolons (stmtTokens body))
  | .define name params body =>
    .word "def" :: name.token :: parens (commas (paramTokens params)) ++
      braces (semicolons (stmtTokens body))
  | .block body => braces (semicolons (stmtTokens body))
  | .breakLoop => [.word "break"]
  | .continueLoop => [.word "continue"]
  | .ret => [.word "return"]

/-- The statements as tokens. -/
def stmtTokens : List Stmt → List (List TokenKind)
  | [] => []
  | s :: rest => s.tokens :: stmtTokens rest

/-- The `else` branch as tokens. -/
def Otherwise.tokens : Otherwise → List TokenKind
  | .nothing => []
  | .block body => .word "else" :: braces (semicolons (stmtTokens body))
  | .branch cond yes no =>
    .word "else" :: .word "if" :: parens cond.tokens ++ braces (semicolons (stmtTokens yes)) ++
      no.tokens

/-- The part of a header as tokens. -/
def Part.tokens : Part → List TokenKind
  | .nothing => []
  | .expr e => e.tokens
  | .assign decl target value => assignTokens target decl ++ value.tokens

end

/-! ## The tree that is meant -/

mutual

/-- How many anonymous functions the callee holds. -/
def Callee.count : Callee → Nat
  | .name _ => 0
  | .call callee args => callee.count + argCount args

/-- How many anonymous functions the expression holds. -/
def Expr.count : Expr → Nat
  | .access callee => callee.count
  | .unary _ operand => operand.count
  | .binary _ left right => left.count + right.count
  | .compound _ _ value => value.count
  | .ret value => value.count
  | .function params body => 1 + (paramCount params + stmtCount body)
  | .group inner => inner.count
  | _ => 0

/-- How many anonymous functions the arguments hold. -/
def argCount : List Expr → Nat
  | [] => 0
  | e :: rest => e.count + argCount rest

/-- How many anonymous functions the parameter holds. -/
def Parameter.count : Parameter → Nat
  | .required _ => 0
  | .optional _ value => value.count

/-- How many anonymous functions the parameters hold. -/
def paramCount : List Parameter → Nat
  | [] => 0
  | param :: rest => param.count + paramCount rest

/-- How many anonymous functions the statement holds. -/
def Stmt.count : Stmt → Nat
  | .expr e => e.count
  | .assign _ _ value => value.count
  | .branch cond yes no => cond.count + (stmtCount yes + no.count)
  | .whileLoop cond body => cond.count + stmtCount body
  | .forLoop init cond step body => init.count + (cond.count + (step.count + stmtCount body))
  | .define _ params body => paramCount params + stmtCount body
  | .block body => stmtCount body
  | _ => 0

/-- How many anonymous functions the statements hold. -/
def stmtCount : List Stmt → Nat
  | [] => 0
  | s :: rest => s.count + stmtCount rest

/-- How many anonymous functions the `else` branch holds. -/
def Otherwise.count : Otherwise → Nat
  | .nothing => 0
  | .block body => stmtCount body
  | .branch cond yes no => cond.count + (stmtCount yes + no.count)

/-- How many anonymous functions the part of a header holds. -/
def Part.count : Part → Nat
  | .nothing => 0
  | .expr e => e.count
  | .assign _ _ value => value.count

end

/-- The made-up name of the anonymous function with a number. -/
def anonymousName (number : Nat) : String := "anon#" ++ toString number

mutual

/-- The tree of the callee; its anonymous functions are numbered from `k`. -/
def Callee.node (k : Nat) : Callee → Node
  | .name name => .ident name.text .unresolved .nowhere
  | .call callee args =>
    .call (callee.node k) (argNodes (k + callee.count) args) .nowhere

/-- The tree of the expression; its anonymous functions are numbered from `k`. -/
def Expr.node (k : Nat) : Expr → Node
  | .int value => .int value .nowhere
  | .float bits => .float bits .nowhere
  | .bool value => .bool value .nowhere
  | .str text => .str text .nowhere
  | .null => .null .nowhere
  | .access callee => callee.node k
  | .unary op operand => .unary op (operand.node k) .nowhere
  | .binary op left right => .binary op (left.node k) (right.node (k + left.count)) .nowhere
  | .compound op target value =>
    .assign target.text .unresolved .plain (some op.op) (value.node k) .nowhere
  | .ret value => .ret (some (value.node k)) .nowhere
  | .function params body =>
    .define (anonymousName k) none (paramNodes (k + 1) params)
      (.block (stmtNodes (k + 1 + paramCount params) body) .nowhere) .blank .nowhere
  | .group inner => inner.node k

/-- The trees of the arguments. -/
def argNodes (k : Nat) : List Expr → List Node
  | [] => []
  | e :: rest => e.node k :: argNodes (k + e.count) rest

/-- The parameter in the tree. -/
def Parameter.node (k : Nat) : Parameter → Param
  | .required name => .mk name.text none .nowhere
  | .optional name value => .mk name.text (some (value.node k)) .nowhere

/-- The parameters in the tree. -/
def paramNodes (k : Nat) : List Parameter → List Param
  | [] => []
  | param :: rest => param.node k :: paramNodes (k + param.count) rest

/-- The tree of the statement. -/
def Stmt.node (k : Nat) : Stmt → Node
  | .expr e => e.node k
  | .assign decl target value =>
    .assign target.text .unresolved decl none (value.node k) .nowhere
  | .branch cond yes no =>
    .branch (cond.node k) (.block (stmtNodes (k + cond.count) yes) .nowhere)
      (no.node (k + cond.count + stmtCount yes)) .blank .blank .nowhere
  | .whileLoop cond body =>
    .whileLoop (cond.node k) (.block (stmtNodes (k + cond.count) body) .nowhere) .blank .blank
      .nowhere
  | .forLoop init cond step body =>
    .forLoop (init.node k) (cond.node (k + init.count)) (step.node (k + init.count + cond.count))
      (.block (stmtNodes (k + init.count + cond.count + step.count) body) .nowhere) .blank .blank
      .nowhere
  | .define name params body =>
    .define name.text (some .unresolved) (paramNodes k params)
      (.block (stmtNodes (k + paramCount params) body) .nowhere) .blank .nowhere
  | .block body => .block (stmtNodes k body) .nowhere
  | .breakLoop => .breakLoop .nowhere
  | .continueLoop => .continueLoop .nowhere
  | .ret => .ret none .nowhere

/-- The trees of the statements. -/
def stmtNodes (k : Nat) : List Stmt → List Node
  | [] => []
  | s :: rest => s.node k :: stmtNodes (k + s.count) rest

/-- The tree of the `else` branch, if there is one. -/
def Otherwise.node (k : Nat) : Otherwise → Option Node
  | .nothing => none
  | .block body => some (.block (stmtNodes k body) .nowhere)
  | .branch cond yes no =>
    some (.branch (cond.node k) (.block (stmtNodes (k + cond.count) yes) .nowhere)
      (no.node (k + cond.count + stmtCount yes)) .blank .blank .nowhere)

/-- The tree of the part of a header, if it is there. -/
def Part.node (k : Nat) : Part → Option Node
  | .nothing => none
  | .expr e => some (e.node k)
  | .assign decl target value =>
    some (.assign target.text .unresolved decl none (value.node k) .nowhere)

end

/-! ## Depth of groups -/

/-- The number of groups around an operand. -/
def under (needed : Bool) (depth : Nat) : Nat := if needed then depth + 1 else depth

/-- The most groups that can stand around an operator without its precedence being cut off. -/
def depthLimit : Nat := 4294967

mutual

/-- No operator of the callee stands under too many groups. -/
def Callee.Shallow : Callee → Prop
  | .name _ => True
  | .call callee args => callee.Shallow ∧ argsShallow args

/-- No operator of the expression stands under too many groups, if `depth` are open around it.
Arguments, parameters and bodies start anew. -/
def Expr.Shallow (depth : Nat) : Expr → Prop
  | .access callee => callee.Shallow
  | .unary op operand =>
    depth ≤ depthLimit ∧ operand.Shallow (under (operand.needsLeft op.precedence) depth)
  | .binary op left right =>
    depth ≤ depthLimit ∧ left.Shallow (under (left.needsLeft op.precedence) depth) ∧
      right.Shallow (under (right.needsRight op.precedence) depth)
  | .compound _ _ value =>
    depth ≤ depthLimit ∧ value.Shallow (under (value.needsRight compoundPrecedence) depth)
  | .ret value =>
    depth ≤ depthLimit ∧ value.Shallow (under (value.needsRight compoundPrecedence) depth)
  | .function params body => paramsShallow params ∧ stmtsShallow body
  | .group inner => inner.Shallow (depth + 1)
  | _ => True

/-- No operator of the arguments stands under too many groups. -/
def argsShallow : List Expr → Prop
  | [] => True
  | e :: rest => e.Shallow 0 ∧ argsShallow rest

/-- No operator of the parameter stands under too many groups. -/
def Parameter.Shallow : Parameter → Prop
  | .required _ => True
  | .optional _ value => value.Shallow 0

/-- No operator of the parameters stands under too many groups. -/
def paramsShallow : List Parameter → Prop
  | [] => True
  | param :: rest => param.Shallow ∧ paramsShallow rest

/-- No operator of the statement stands under too many groups. -/
def Stmt.Shallow : Stmt → Prop
  | .expr e => e.Shallow 0
  | .assign _ _ value => value.Shallow
  | .branch cond yes no => cond.Shallow 0 ∧ stmtsShallow yes ∧ no.Shallow
  | .whileLoop cond body => cond.Shallow 0 ∧ stmtsShallow body
  | .forLoop init cond step body =>
    init.Shallow ∧ cond.Shallow ∧ step.Shallow ∧ stmtsShallow body
  | .define _ params body => paramsShallow params ∧ stmtsShallow body
  | .block body => stmtsShallow body
  | _ => True

/-- No operator of the statements stands under too many groups. -/
def stmtsShallow : List Stmt → Prop
  | [] => True
  | s :: rest => s.Shallow ∧ stmtsShallow rest

/-- No operator of the `else` branch stands under too many groups. -/
def Otherwise.Shallow : Otherwise → Prop
  | .nothing => True
  | .block body => stmtsShallow body
  | .branch cond yes no => cond.Shallow 0 ∧ stmtsShallow yes ∧ no.Shallow

/-- No operator of the part of a header stands under too many groups. -/
def Part.Shallow : Part → Prop
  | .nothing => True
  | .expr e => e.Shallow 0
  | .assign _ _ value => value.Shallow 0

end

/-! ## Expressions as folds

An expression is read as one run, in which only what has no operators of its own is a finished
operand. -/

/-- The expression as a fold, if `depth` groups are open around it. -/
def Expr.fold (depth k : Nat) : Expr → Fold
  | .unary op operand =>
    .front (.unary op) (effectivePrecedence op.precedence depth) .nowhere
      (operand.fold (under (operand.needsLeft op.precedence) depth) k)
  | .binary op left right =>
    .between op (effectivePrecedence op.precedence depth) .nowhere
      (left.fold (under (left.needsLeft op.precedence) depth) k)
      (right.fold (under (right.needsRight op.precedence) depth) (k + left.count))
  | .compound op target value =>
    .front (.compound op.op target.text .unresolved .nowhere)
      (effectivePrecedence compoundPrecedence depth) .nowhere
      (value.fold (under (value.needsRight compoundPrecedence) depth) k)
  | .ret value =>
    .front .ret (effectivePrecedence returnPrecedence depth) .nowhere
      (value.fold (under (value.needsRight compoundPrecedence) depth) k)
  | .group inner => inner.fold (depth + 1) k
  | e => .leaf (e.node k)

theorem Callee.node_span (callee : Callee) (k : Nat) : (callee.node k).span = .nowhere := by
  cases callee <;> simp [Callee.node, Node.span]

theorem Expr.node_span (e : Expr) (k : Nat) : (e.node k).span = .nowhere := by
  cases e with
  | access callee => rw [Expr.node, callee.node_span]
  | group inner => rw [Expr.node, inner.node_span]
  | _ => simp [Expr.node, Node.span]
termination_by structural e

theorem Expr.fold_node (e : Expr) (depth k : Nat) : (e.fold depth k).node = e.node k := by
  cases e with
  | unary op operand =>
    simp [Expr.fold, Fold.node, Front.node, Expr.node, operand.fold_node, operand.node_span]
  | binary op left right =>
    simp [Expr.fold, Fold.node, Expr.node, left.fold_node, right.fold_node, left.node_span,
      right.node_span]
  | compound op target value =>
    simp [Expr.fold, Fold.node, Front.node, Expr.node, value.fold_node, value.node_span]
  | ret value =>
    simp [Expr.fold, Fold.node, Front.node, Expr.node, value.fold_node, value.node_span]
  | group inner => rw [Expr.fold, Expr.node, inner.fold_node]
  | _ => rfl
termination_by structural e

/-- Up to the limit every group counts. -/
theorem effectivePrecedence_eq {base depth : Nat} (hbase : base ≤ 200)
    (hdepth : depth ≤ depthLimit) : effectivePrecedence base depth = base + depth * 1000 := by
  simp only [effectivePrecedence, groupWeight, precedenceLimit, depthLimit] at *
  omega

theorem BinaryOp.precedence_bounds (op : BinaryOp) : 5 ≤ op.precedence ∧ op.precedence ≤ 100 := by
  cases op <;> decide

theorem UnaryOp.precedence_eq (op : UnaryOp) : op.precedence = 200 := by
  cases op <;> rfl

theorem Expr.le_of_needsLeft {e : Expr} {p depth q : Nat} (hp : p ≤ 1000)
    (h : e.precedence + under (e.needsLeft p) depth * 1000 ≤ q) : p + depth * 1000 ≤ q := by
  by_cases hneeds : e.precedence < p
  · simp only [under, Expr.needsLeft, hneeds, decide_true, if_true] at h
    omega
  · simp only [under, Expr.needsLeft, hneeds, decide_false] at h
    simp at h
    omega

theorem Expr.lt_of_needsRight {e : Expr} {p depth q : Nat} (hp : p < 1000)
    (h : e.precedence + under (e.needsRight p) depth * 1000 ≤ q) : p + depth * 1000 < q := by
  by_cases hneeds : e.precedence ≤ p
  · simp only [under, Expr.needsRight, hneeds, decide_true, if_true] at h
    omega
  · simp only [under, Expr.needsRight, hneeds, decide_false] at h
    simp at h
    omega

/-- No operator of an expression binds looser than its outermost one. -/
theorem Expr.le_fold_precedences (e : Expr) (depth k : Nat) (h : e.Shallow depth) :
    ∀ q ∈ (e.fold depth k).precedences, e.precedence + depth * 1000 ≤ q := by
  cases e with
  | unary op operand =>
    obtain ⟨hdepth, hoperand⟩ := h
    have hop := UnaryOp.precedence_eq op
    have hself := effectivePrecedence_eq (by omega : op.precedence ≤ 200) hdepth
    simp only [Expr.fold, Fold.precedences, List.mem_cons, Expr.precedence]
    rintro q (rfl | hq)
    · omega
    · exact le_of_needsLeft (by omega) (operand.le_fold_precedences _ _ hoperand q hq)
  | binary op left right =>
    obtain ⟨hdepth, hleft, hright⟩ := h
    have hop := BinaryOp.precedence_bounds op
    have hself := effectivePrecedence_eq (by omega : op.precedence ≤ 200) hdepth
    simp only [Expr.fold, Fold.precedences, List.mem_append, List.mem_cons, Expr.precedence]
    rintro q (hq | rfl | hq)
    · exact le_of_needsLeft (by omega) (left.le_fold_precedences _ _ hleft q hq)
    · omega
    · exact Nat.le_of_lt
        (lt_of_needsRight (by omega) (right.le_fold_precedences _ _ hright q hq))
  | compound op target value =>
    obtain ⟨hdepth, hvalue⟩ := h
    have hself := effectivePrecedence_eq (by decide : compoundPrecedence ≤ 200) hdepth
    simp only [Expr.fold, Fold.precedences, List.mem_cons, Expr.precedence]
    rintro q (rfl | hq)
    · omega
    · exact Nat.le_of_lt
        (lt_of_needsRight (by decide) (value.le_fold_precedences _ _ hvalue q hq))
  | ret value =>
    obtain ⟨hdepth, hvalue⟩ := h
    have hself := effectivePrecedence_eq (by decide : returnPrecedence ≤ 200) hdepth
    simp only [Expr.fold, Fold.precedences, List.mem_cons, Expr.precedence]
    rintro q (rfl | hq)
    · omega
    · have := lt_of_needsRight (by decide) (value.le_fold_precedences _ _ hvalue q hq)
      simp only [returnPrecedence, compoundPrecedence] at this ⊢
      omega
  | group inner =>
    intro q hq
    have := inner.le_fold_precedences (depth + 1) k h q hq
    simp only [Expr.precedence, groupWeight]
    omega
  | _ => simp [Expr.fold, Fold.precedences]
termination_by structural e

/-- What stands to the right of an operator, in parentheses if it needs them, can stand there. -/
theorem Expr.under_fold {e : Expr} {p depth k : Nat} (hp : p < 1000)
    (h : e.Shallow (under (e.needsRight p) depth)) :
    (e.fold (under (e.needsRight p) depth) k).Under (p + depth * 1000) :=
  Or.inr fun q hq => lt_of_needsRight hp (e.le_fold_precedences _ _ h q hq)

/-- The operand of an operator in front of it starts with another such operator, or can stand to
its right. -/
theorem Expr.under_fold_unary {e : Expr} {op : UnaryOp} {depth k : Nat}
    (h : e.Shallow (under (e.needsLeft op.precedence) depth)) :
    (e.fold (under (e.needsLeft op.precedence) depth) k).Under (op.precedence + depth * 1000) := by
  have hop := UnaryOp.precedence_eq op
  by_cases hunary : ∃ inner operand, e = .unary inner operand
  · obtain ⟨inner, operand, rfl⟩ := hunary
    exact Or.inl rfl
  · refine Or.inr fun q hq => ?_
    have hle := e.le_fold_precedences _ _ h q hq
    have hne : e.precedence ≠ 200 := by
      cases e with
      | unary inner operand => exact absurd ⟨inner, operand, rfl⟩ hunary
      | binary op left right =>
        have := BinaryOp.precedence_bounds op
        simp only [Expr.precedence]
        omega
      | _ => simp [Expr.precedence, compoundPrecedence, returnPrecedence, groupWeight]
    by_cases hneeds : e.precedence < op.precedence
    · simp only [under, Expr.needsLeft, hneeds, decide_true, if_true] at hle
      omega
    · simp only [under, Expr.needsLeft, hneeds, decide_false] at hle
      simp at hle
      omega

/-- The parentheses of an expression lead back to its shape. -/
theorem Expr.fold_canonical (e : Expr) (depth k : Nat) (h : e.Shallow depth) :
    (e.fold depth k).Canonical := by
  cases e with
  | unary op operand =>
    obtain ⟨hdepth, hoperand⟩ := h
    have hop := UnaryOp.precedence_eq op
    rw [Expr.fold, effectivePrecedence_eq (by omega) hdepth]
    exact ⟨operand.fold_canonical _ _ hoperand, under_fold_unary hoperand⟩
  | binary op left right =>
    obtain ⟨hdepth, hleft, hright⟩ := h
    have hop := BinaryOp.precedence_bounds op
    rw [Expr.fold, effectivePrecedence_eq (by omega) hdepth]
    refine ⟨left.fold_canonical _ _ hleft, right.fold_canonical _ _ hright, fun q hq => ?_,
      under_fold (by omega) hright⟩
    exact le_of_needsLeft (by omega) (left.le_fold_precedences _ _ hleft q hq)
  | compound op target value =>
    obtain ⟨hdepth, hvalue⟩ := h
    rw [Expr.fold, effectivePrecedence_eq (by decide) hdepth]
    exact ⟨value.fold_canonical _ _ hvalue, under_fold (by decide) hvalue⟩
  | ret value =>
    obtain ⟨hdepth, hvalue⟩ := h
    rw [Expr.fold, effectivePrecedence_eq (by decide) hdepth]
    refine ⟨value.fold_canonical _ _ hvalue, ?_⟩
    -- The operand gets its parentheses as if a compound assignment stood before it.
    rcases under_fold (by decide) hvalue with hleads | hall
    · exact Or.inl hleads
    · exact Or.inr fun q hq => Nat.lt_trans
        (Nat.add_lt_add_right (by decide : returnPrecedence < compoundPrecedence) _) (hall q hq)
  | group inner => exact inner.fold_canonical (depth + 1) k h
  | _ => trivial
termination_by structural e

/-- Folding the run of an expression gives its tree. -/
theorem Expr.assemble_fold {e : Expr} {depth : Nat} (h : e.Shallow depth) (k : Nat) :
    Run.assemble (e.fold depth k).items = .ok (e.node k) := by
  rw [Fold.assemble_items (e.fold_canonical depth k h), e.fold_node]

end SlotScript.Source
