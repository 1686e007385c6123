import SlotScript.Proofs.Tree.Recast

/-!
# Bare blocks

A bare block is a block that is a statement itself: of the program, or of another block. What is said
here about bare blocks is said about those with statements in them, since an empty one is a value.

`Node.Splices` takes the braces off one bare block, at a given place of the tree: its statements stand
where it stood. `Node.unbraced` takes them off all bare blocks at once. It does not matter to it whether
a block has lost its braces before (`Node.Splices.unbraced_eq`), so two trees that differ in the braces
of one bare block are compared through the tree that has none.

The block that is the body of a function, of a loop or of a branch is no bare block, nor is one that is
an operand or an argument.
-/

namespace SlotScript

/-! ## Taking off the braces of one block -/

/-- The second node is the first one with the statements of the bare block at the path in its place. The
path goes down from the node; it says for each node which of its parts is next, and for the last one
which of its statements the block is. -/
inductive Node.Splices : List Nat → Node → Node → Prop
  /-- The block is a statement of this block. -/
  | here {before body after : List Node} {inner span : Span} (hbody : body ≠ []) :
    Splices [before.length] (.block (before ++ .block body inner :: after) span)
      (.block (before ++ (body ++ after)) span)
  /-- The block is inside of a statement of this block. -/
  | statement {path : List Nat} {before after : List Node} {a b : Node} {span : Span}
      (h : Splices path a b) :
    Splices (before.length :: path) (.block (before ++ a :: after) span)
      (.block (before ++ b :: after) span)
  | operand {path : List Nat} {op : UnaryOp} {a b : Node} {span : Span} (h : Splices path a b) :
    Splices (0 :: path) (.unary op a span) (.unary op b span)
  | left {path : List Nat} {op : BinaryOp} {a b right : Node} {span : Span} (h : Splices path a b) :
    Splices (0 :: path) (.binary op a right span) (.binary op b right span)
  | right {path : List Nat} {op : BinaryOp} {left a b : Node} {span : Span} (h : Splices path a b) :
    Splices (1 :: path) (.binary op left a span) (.binary op left b span)
  | value {path : List Nat} {target : String} {var : VarRef} {decl : DeclKind} {op : Option BinaryOp}
      {a b : Node} {span : Span} (h : Splices path a b) :
    Splices (0 :: path) (.assign target var decl op a span) (.assign target var decl op b span)
  | cond {path : List Nat} {a b yes : Node} {no : Option Node} {yesShape noShape : Shape} {span : Span}
      (h : Splices path a b) :
    Splices (0 :: path) (.branch a yes no yesShape noShape span) (.branch b yes no yesShape noShape span)
  | yes {path : List Nat} {cond a b : Node} {no : Option Node} {yesShape noShape : Shape} {span : Span}
      (h : Splices path a b) :
    Splices (1 :: path) (.branch cond a no yesShape noShape span) (.branch cond b no yesShape noShape span)
  | no {path : List Nat} {cond yes a b : Node} {yesShape noShape : Shape} {span : Span}
      (h : Splices path a b) :
    Splices (2 :: path) (.branch cond yes (some a) yesShape noShape span)
      (.branch cond yes (some b) yesShape noShape span)
  | whileCond {path : List Nat} {a b body : Node} {header bodyShape : Shape} {span : Span}
      (h : Splices path a b) :
    Splices (0 :: path) (.whileLoop a body header bodyShape span) (.whileLoop b body header bodyShape span)
  | whileBody {path : List Nat} {cond a b : Node} {header bodyShape : Shape} {span : Span}
      (h : Splices path a b) :
    Splices (1 :: path) (.whileLoop cond a header bodyShape span) (.whileLoop cond b header bodyShape span)
  | forInit {path : List Nat} {a b body : Node} {cond step : Option Node} {header bodyShape : Shape}
      {span : Span} (h : Splices path a b) :
    Splices (0 :: path) (.forLoop (some a) cond step body header bodyShape span)
      (.forLoop (some b) cond step body header bodyShape span)
  | forCond {path : List Nat} {a b body : Node} {init step : Option Node} {header bodyShape : Shape}
      {span : Span} (h : Splices path a b) :
    Splices (1 :: path) (.forLoop init (some a) step body header bodyShape span)
      (.forLoop init (some b) step body header bodyShape span)
  | forStep {path : List Nat} {a b body : Node} {init cond : Option Node} {header bodyShape : Shape}
      {span : Span} (h : Splices path a b) :
    Splices (2 :: path) (.forLoop init cond (some a) body header bodyShape span)
      (.forLoop init cond (some b) body header bodyShape span)
  | forBody {path : List Nat} {a b : Node} {init cond step : Option Node} {header bodyShape : Shape}
      {span : Span} (h : Splices path a b) :
    Splices (3 :: path) (.forLoop init cond step a header bodyShape span)
      (.forLoop init cond step b header bodyShape span)
  | default {path : List Nat} {name param : String} {binding : Option VarRef} {before after : List Param}
      {a b body : Node} {frame : Shape} {inner span : Span} (h : Splices path a b) :
    Splices (before.length :: path)
      (.define name binding (before ++ .mk param (some a) inner :: after) body frame span)
      (.define name binding (before ++ .mk param (some b) inner :: after) body frame span)
  | body {path : List Nat} {name : String} {binding : Option VarRef} {params : List Param} {a b : Node}
      {frame : Shape} {span : Span} (h : Splices path a b) :
    Splices (params.length :: path) (.define name binding params a frame span)
      (.define name binding params b frame span)
  | callee {path : List Nat} {a b : Node} {args : List Node} {span : Span} (h : Splices path a b) :
    Splices (0 :: path) (.call a args span) (.call b args span)
  | argument {path : List Nat} {callee a b : Node} {before after : List Node} {span : Span}
      (h : Splices path a b) :
    Splices ((before.length + 1) :: path) (.call callee (before ++ a :: after) span)
      (.call callee (before ++ b :: after) span)
  | ret {path : List Nat} {a b : Node} {span : Span} (h : Splices path a b) :
    Splices (0 :: path) (.ret (some a) span) (.ret (some b) span)

/-- The second program is the first one with the statements of the bare block at the path in its place.
The statements of a program are taken as those of a block. -/
def Program.Splices (path : List Nat) (program other : Program) : Prop :=
  (Node.block program.body ⟨0, 0⟩).Splices path (.block other.body ⟨0, 0⟩) ∧
    other.shape = program.shape

/-! ## Taking off the braces of all blocks -/

/-- What a statement is replaced by: the statements of a bare block, and else the statement itself. -/
def Node.spread : Node → List Node
  | .block (first :: rest) _ => first :: rest
  | node => [node]

/-- The change that takes off the braces of all bare blocks. It leaves names alone. -/
def Recast.unbracing : Recast where
  name := id
  spread := Node.spread

/-- The node without the braces of bare blocks. -/
abbrev Node.unbraced (node : Node) : Node := node.recast .unbracing

/-- Statements without the braces of bare blocks. -/
abbrev unbracedStatements (statements : List Node) : List Node := recastStatements .unbracing statements

/-- The program without the braces of bare blocks. -/
def Program.unbraced (program : Program) : Program :=
  { program with body := unbracedStatements program.body }

theorem Node.spread_cases (node : Node) :
    node.spread = [node] ∨ ∃ first rest span, node = .block (first :: rest) span := by
  cases node with
  | block body span =>
    cases body with
    | nil => exact .inl rfl
    | cons first rest => exact .inr ⟨first, rest, span, rfl⟩
  | _ => exact .inl rfl

end SlotScript
