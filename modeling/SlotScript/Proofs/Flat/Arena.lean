import SlotScript.Tree
import SlotScript.Tree.Fault

/-!
# Trees in flat storage

An `Arena` keeps all nodes of a program in one list. A node is an `Entry` there and is known by its
place in the list; where a tree has subtrees an entry has links, which are such places. Statements,
arguments and parameters of an entry are stretches of two further lists.

Nothing in the types keeps a link from leading nowhere, upwards or to a node that another entry
links to as well, so storage can fail in ways that a tree cannot. Whoever builds in an arena stops
with a `Halt`: a fault of the tokens, or a crash of the builder itself.
-/

namespace SlotScript.Flat

/-! ## Halting -/

/-- What must not happen, whatever the tokens are. -/
inductive Crash where
  /-- There are more entries than links can tell apart. -/
  | overflow
  /-- A link or a stretch leads out of the storage. -/
  | dangling
  /-- A position in a run lies outside it. -/
  | outside
  /-- An operand was picked where an operator is folded. -/
  | operandPicked
  /-- A statement is joined while operands and operators lie about in it. -/
  | looseRun
  /-- There is no open level. -/
  | noFrame
  /-- A loop went on for longer than there was anything to do. -/
  | stalled
deriving DecidableEq, Repr

/-- Why building stops. -/
inductive Halt where
  /-- The tokens are no program. -/
  | fault (error : BuildError)
  /-- The builder is broken. -/
  | crash (crash : Crash)

/-- Stops with a fault of the tokens. -/
def fail (error : BuildError) : Except Halt α := .error (.fault error)

/-- Stops with a crash. -/
def crash (crash : Crash) : Except Halt α := .error (.crash crash)

/-! ## Storage -/

/-- A stretch of a list. -/
structure Range where
  /-- Where it starts. -/
  start : Nat
  /-- How many elements it has. -/
  length : Nat
deriving DecidableEq, Repr

/-- A node without its subtrees: links stand in their places. -/
inductive Cell where
  | int (value : Int64)
  | float (bits : UInt64)
  | bool (value : Bool)
  | str (text : String)
  | null
  | ident (name : String) (var : VarRef)
  | unary (op : UnaryOp) (operand : Nat)
  | binary (op : BinaryOp) (left right : Nat)
  | assign (target : String) (var : VarRef) (decl : DeclKind) (op : Option BinaryOp) (value : Nat)
  | branch (cond yes : Nat) (no : Option Nat) (yesShape noShape : Shape)
  | whileLoop (cond body : Nat) (header bodyShape : Shape)
  | forLoop (init cond step : Option Nat) (body : Nat) (header bodyShape : Shape)
  | define (name : String) (binding : Option VarRef) (params : Range) (body : Nat) (frame : Shape)
  | call (callee : Nat) (args : Range)
  | block (body : Range)
  | breakLoop
  | continueLoop
  | ret (value : Option Nat)

/-- A cell and the span of source that it was built from. -/
structure Entry where
  cell : Cell
  span : Span

/-- A parameter, with a link to its default. -/
structure Formal where
  name : String
  default : Option Nat
  span : Span

/-- Storage for the nodes of one program. -/
structure Arena where
  /-- The nodes. -/
  entries : List Entry := []
  /-- Links to statements and arguments. -/
  links : List Nat := []
  /-- Parameters. -/
  formals : List Formal := []

/-- The greatest number that a link can be. -/
def linkLimit : Nat := 4294967295

/-- The link that stands for no node. -/
def noNode : Nat := linkLimit

/-- A number of entries as a link. -/
def toLink (size : Nat) : Except Halt Nat :=
  if size ≤ linkLimit then .ok size else crash .overflow

/-- A stretch of a list, if the list reaches that far. -/
def stretch? (list : List α) (range : Range) : Option (List α) :=
  if range.start + range.length ≤ list.length then
    some ((list.drop range.start).take range.length)
  else none

namespace Arena

variable (a : Arena)

/-- Adds a node and gives the link to it. -/
def alloc (cell : Cell) (span : Span) : Except Halt (Nat × Arena) := do
  let link ← toLink a.entries.length
  return (link, { a with entries := a.entries ++ [⟨cell, span⟩] })

/-- Adds a stretch of links. -/
def allocLinks (links : List Nat) : Except Halt (Range × Arena) := do
  let start ← toLink a.links.length
  let stop ← toLink (a.links ++ links).length
  return (⟨start, stop - start⟩, { a with links := a.links ++ links })

/-- Adds a stretch of parameters. -/
def allocFormals (formals : List Formal) : Except Halt (Range × Arena) := do
  let start ← toLink a.formals.length
  let stop ← toLink (a.formals ++ formals).length
  return (⟨start, stop - start⟩, { a with formals := a.formals ++ formals })

/-- The entry that a link leads to. -/
def entry (link : Nat) : Except Halt Entry :=
  match a.entries[link]? with
  | some entry => .ok entry
  | none => crash .dangling

/-- Where the node stands that a link leads to. -/
def spanOf (link : Nat) : Except Halt Span := return (← a.entry link).span

end Arena

/-! ## Links and trees -/

/-- The links of a cell in the order of the source, if its stretches are in the arena. -/
def Cell.links? (a : Arena) : Cell → Option (List Nat)
  | .unary _ operand => some [operand]
  | .binary _ left right => some [left, right]
  | .assign _ _ _ _ value => some [value]
  | .branch cond yes no _ _ => some (cond :: yes :: no.toList)
  | .whileLoop cond body _ _ => some [cond, body]
  | .forLoop init cond step body _ _ =>
    some (init.toList ++ cond.toList ++ step.toList ++ [body])
  | .define _ _ params body _ =>
    (stretch? a.formals params).map fun formals => formals.filterMap Formal.default ++ [body]
  | .call callee args => (stretch? a.links args).map (callee :: ·)
  | .block body => stretch? a.links body
  | .ret value => some value.toList
  | .int _ | .float _ | .bool _ | .str _ | .null | .ident .. | .breakLoop | .continueLoop => some []

/-- What a link that may be missing leads to. -/
def optional? (get : Nat → Option Node) : Option Nat → Option (Option Node)
  | none => some none
  | some link => (get link).map some

/-- The parameter that an entry for one stands for. -/
def Formal.param? (get : Nat → Option Node) (formal : Formal) : Option Param :=
  (optional? get formal.default).map (.mk formal.name · formal.span)

/-- The node of an entry, if `get` finds the nodes that its links lead to. -/
def Entry.node? (a : Arena) (get : Nat → Option Node) (entry : Entry) : Option Node :=
  match entry.cell with
  | .int value => some (.int value entry.span)
  | .float bits => some (.float bits entry.span)
  | .bool value => some (.bool value entry.span)
  | .str text => some (.str text entry.span)
  | .null => some (.null entry.span)
  | .ident name var => some (.ident name var entry.span)
  | .unary op operand => do return .unary op (← get operand) entry.span
  | .binary op left right => do return .binary op (← get left) (← get right) entry.span
  | .assign target var decl op value => do
    return .assign target var decl op (← get value) entry.span
  | .branch cond yes no yesShape noShape => do
    return .branch (← get cond) (← get yes) (← optional? get no) yesShape noShape entry.span
  | .whileLoop cond body header bodyShape => do
    return .whileLoop (← get cond) (← get body) header bodyShape entry.span
  | .forLoop init cond step body header bodyShape => do
    return .forLoop (← optional? get init) (← optional? get cond) (← optional? get step)
      (← get body) header bodyShape entry.span
  | .define name binding params body frame => do
    let params ← (← stretch? a.formals params).mapM (Formal.param? get)
    return .define name binding params (← get body) frame entry.span
  | .call callee args => do
    return .call (← get callee) (← (← stretch? a.links args).mapM get) entry.span
  | .block body => do return .block (← (← stretch? a.links body).mapM get) entry.span
  | .breakLoop => some (.breakLoop entry.span)
  | .continueLoop => some (.continueLoop entry.span)
  | .ret value => do return .ret (← optional? get value) entry.span

namespace Arena

/-- The links of the node that a link leads to. -/
def links? (a : Arena) (link : Nat) : Option (List Nat) :=
  a.entries[link]?.bind (·.cell.links? a)

/-- The tree under a link, if all links in it lead to earlier entries. -/
def tree? (a : Arena) (link : Nat) : Option Node :=
  a.entries[link]?.bind fun entry =>
    entry.node? a fun inner => if inner < link then a.tree? inner else none
termination_by link

end Arena

/-- A program in an arena. -/
structure Layout where
  /-- Where the nodes are. -/
  arena : Arena
  /-- The statements of the program. -/
  body : Range

/-- The program as trees. -/
def Layout.program? (layout : Layout) : Option Program := do
  let links ← stretch? layout.arena.links layout.body
  let body ← links.mapM layout.arena.tree?
  return { body := body }

end SlotScript.Flat
