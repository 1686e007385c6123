import SlotScript.Proofs.Flat.Arena
import SlotScript.Proofs.Tree.Ahead

/-!
# Building in flat storage

A builder that fills an arena. It reads the tokens with one token of lookahead: a keyword that needs
a certain token after it looks for it and takes it at once. All levels, the program's included, are
on one stack of frames, and one list of a frame holds both the finished parts of a statement and the
operands and operators that are still loose. Runs are folded by position, in place.

Every step of it that relies on something the types do not say can crash: a link, a position or the
stack itself may turn out to be missing. `build` is the whole.
-/

namespace SlotScript.Flat

/-! ## Folding a run -/

/-- An item of a run. -/
inductive RunItem where
  /-- A link to a finished expression. -/
  | operand (link : Nat)
  /-- An operator with its effective precedence. -/
  | operator (op : Operator) (precedence : Nat) (span : Span)

/-- A run from left to right. -/
abbrev Run := List RunItem

namespace Run

/-- Whether an operand stands at the position. -/
def isOperandAt (run : Run) (i : Nat) : Bool :=
  match run[i]? with
  | some (.operand _) => true
  | _ => false

/-- The precedence of an item at position `i`, if it is an operator that is ready. -/
def readyAt (run : Run) (i : Nat) : RunItem → Option Nat
  | .operand _ => none
  | .operator (.binary _) p _ | .operator (.compound _) p _ =>
    if i ≠ 0 ∧ run.isOperandAt (i - 1) ∧ run.isOperandAt (i + 1) then some p else none
  | .operator (.unary _) p _ => if run.isOperandAt (i + 1) then some p else none
  | .operator .ret p _ => if run.length ≤ i + 1 ∨ run.isOperandAt (i + 1) then some p else none

/-- Goes on, from position `i`, to look for a ready operator that binds tighter than the best so
far. -/
def pickFrom (run : Run) (best : Option (Nat × Nat)) (i : Nat) : Run → Option (Nat × Nat)
  | [] => best
  | item :: rest =>
    match run.readyAt i item, best with
    | none, best => pickFrom run best (i + 1) rest
    | some p, none => pickFrom run (some (i, p)) (i + 1) rest
    | some p, some (j, q) => pickFrom run (some (if q < p then (i, p) else (j, q))) (i + 1) rest

/-- The position of the ready operator that binds tightest, the leftmost of several. -/
def pick (run : Run) : Option Nat := (pickFrom run none 0 run).map Prod.fst

/-- The operand at a position. -/
def operandAt (run : Run) (i : Nat) : Except Halt Nat :=
  match run[i]? with
  | some (.operand link) => .ok link
  | some (.operator ..) => .ok noNode
  | none => crash .outside

/-- The operands on both sides of a position. -/
def neighbours (run : Run) (i : Nat) : Except Halt (Nat × Nat) := do
  if i = 0 then crash .outside
  else return (← run.operandAt (i - 1), ← run.operandAt (i + 1))

/-- Puts an operand in the place of the items from `first` to `last`. -/
def splice (run : Run) (first last link : Nat) : Except Halt Run :=
  if last < run.length then .ok (run.take first ++ .operand link :: run.drop (last + 1))
  else crash .outside

/-- Folds the operator at a position. -/
def foldAt (run : Run) (i : Nat) (a : Arena) : Except Halt (Run × Arena) :=
  match run[i]? with
  | none => crash .outside
  | some (.operand _) => crash .operandPicked
  | some (.operator (.binary op) _ span) => do
    let (left, right) ← run.neighbours i
    let span := ((← a.spanOf left).merge (← a.spanOf right)).merge span
    let (link, a) ← a.alloc (.binary op left right) span
    return (← run.splice (i - 1) (i + 1) link, a)
  | some (.operator (.compound op) _ span) => do
    let (left, value) ← run.neighbours i
    let target ← a.entry left
    match target.cell with
    | .ident name _ =>
      let span := (target.span.merge (← a.spanOf value)).merge span
      let (link, a) ← a.alloc (.assign name .unresolved .plain (some op) value) span
      return (← run.splice (i - 1) (i + 1) link, a)
    | _ => fail { fault := .invalidTarget, span := target.span }
  | some (.operator (.unary op) _ span) => do
    let operand ← run.operandAt (i + 1)
    let (link, a) ← a.alloc (.unary op operand) (span.merge (← a.spanOf operand))
    return (← run.splice i (i + 1) link, a)
  | some (.operator .ret _ span) => do
    if i + 1 < run.length then
      let value ← run.operandAt (i + 1)
      let (link, a) ← a.alloc (.ret (some value)) (span.merge (← a.spanOf value))
      return (← run.splice i (i + 1) link, a)
    else
      let (link, a) ← a.alloc (.ret none) span
      return (← run.splice i i link, a)

/-- Where an item stands. -/
def itemSpan (a : Arena) : RunItem → Except Halt Span
  | .operand link => a.spanOf link
  | .operator _ _ span => .ok span

/-- Whether an item is an operator. -/
def isOperator : RunItem → Bool
  | .operand _ => false
  | .operator .. => true

/-- Stops at a run that cannot be folded any further. -/
def stuck (run : Run) (a : Arena) : Except Halt α :=
  match run.find? isOperator, run[1]? with
  | some item, _ => do fail { fault := .expected .operand, span := ← itemSpan a item }
  | none, some item => do fail { fault := .missingSeparator, span := ← itemSpan a item }
  | none, none => fail { fault := .missingSeparator, span := ⟨0, 0⟩ }

/-- Folds a run into one expression, in at most so many rounds. -/
def assembleIn : (rounds : Nat) → Run → Arena → Except Halt (Nat × Arena)
  | 0, _, _ => crash .stalled
  | _ + 1, [.operand link], a => .ok (link, a)
  | rounds + 1, run, a =>
    match run.pick with
    | none => run.stuck a
    | some i => do
      let (run, a) ← run.foldAt i a
      assembleIn rounds run a

/-- Folds a run into one expression. Every round but the last folds an operator. -/
def assemble (run : Run) (a : Arena) : Except Halt (Nat × Arena) :=
  assembleIn (run.length + 1) run a

end Run

/-! ## Joining a statement -/

/-- An entry on the item stack of a frame. -/
inductive Item where
  /-- A loose operand or operator. -/
  | run (item : RunItem)
  /-- A finished expression. -/
  | node (link : Nat)
  /-- The target of an assignment. -/
  | assign (target : String) (decl : DeclKind) (span : Span)
  /-- An `if` with its condition. -/
  | branch (cond : Nat) (span : Span)
  /-- An `else` between two branches. -/
  | otherwise (span : Span)
  /-- A `while` with its condition. -/
  | whileLoop (cond : Nat) (span : Span)
  /-- A `for` with its header. -/
  | forLoop (init cond step : Option Nat) (span : Span)
  /-- A function's head. -/
  | define (name : String) (anonymous : Bool) (params : Range) (span : Span)

namespace Item

/-- The operand or operator that the item is. -/
def run? : Item → Option RunItem
  | .run item => some item
  | _ => none

/-- Whether the item is a loose operand or operator. -/
def isRun (item : Item) : Bool := item.run?.isSome

/-- Whether an `else` branch can look for its `if` past the item. -/
def admitsElse : Item → Bool
  | .node _ | .branch .. => true
  | _ => false

end Item

/-- A function from its head and its body, which has to be a block. -/
def completeFunction (a : Arena) (name : String) (anonymous : Bool) (params : Range) (body : Nat)
    (span : Span) : Except Halt (Nat × Arena) := do
  let entry ← a.entry body
  match entry.cell with
  | .block _ =>
    let binding := if anonymous then none else some VarRef.unresolved
    a.alloc (.define name binding params body .blank) (span.merge entry.span)
  | _ => fail { fault := .missingBody, span := entry.span }

/-- The one node that an item takes as its body or its value. -/
def takeOne (a : Arena) (missing : Missing) (span : Span) : List Nat → Except Halt Nat
  | [] => fail { fault := .expected missing, span := span }
  | [link] => .ok link
  | _ :: second :: _ => do fail { fault := .missingSeparator, span := ← a.spanOf second }

/-- The node that an item other than a finished expression or an `else` makes of the nodes to its
right. -/
def Item.join (a : Arena) (waiting : List Nat) (otherwise : Option (Nat × Span)) :
    Item → Except Halt (Nat × Arena)
  | .assign target decl span => do
    let value ← takeOne a .value span waiting
    a.alloc (.assign target .unresolved decl none value) (span.merge (← a.spanOf value))
  | .branch cond span => do
    let yes ← takeOne a .ifBody span waiting
    let no := otherwise.map Prod.fst
    let stop ← a.spanOf (no.getD yes)
    a.alloc (.branch cond yes no .blank .blank) (span.merge stop)
  | .whileLoop cond span => do
    let body ← takeOne a .loopBody span waiting
    a.alloc (.whileLoop cond body .blank .blank) (span.merge (← a.spanOf body))
  | .forLoop init cond step span => do
    let body ← takeOne a .loopBody span waiting
    a.alloc (.forLoop init cond step body .blank .blank) (span.merge (← a.spanOf body))
  | .define name anonymous params span => do
    let body ← takeOne a .functionBody span waiting
    completeFunction a name anonymous params body span
  | .run _ | .node _ | .otherwise _ => crash .looseRun

/-- Joins the items of a statement, the last item first. `waiting` are the nodes to the right that
nothing has taken yet, and `otherwise` is an `else` branch that looks for its `if`. -/
def weldFrom (waiting : List Nat) (otherwise : Option (Nat × Span)) :
    List Item → Arena → Except Halt (Option Nat × Arena)
  | [], a =>
    match otherwise, waiting with
    | some (_, span), _ => fail { fault := .strayElse, span := span }
    | none, [] => .ok (none, a)
    | none, [link] => .ok (some link, a)
    | none, _ :: second :: _ => do
      fail { fault := .missingSeparator, span := ← a.spanOf second }
  | item :: rest, a =>
    match otherwise, item.admitsElse with
    | some (_, span), false => fail { fault := .strayElse, span := span }
    | _, _ =>
      match item with
      | .run _ => crash .looseRun
      | .node link => weldFrom (link :: waiting) otherwise rest a
      | .otherwise span => do
        let branch ← takeOne a .elseBranch span waiting
        weldFrom [] (some (branch, span)) rest a
      | .branch .. => do
        let (link, a) ← item.join a waiting otherwise
        weldFrom [link] none rest a
      | item => do
        let (link, a) ← item.join a waiting otherwise
        weldFrom [link] otherwise rest a

/-! ## Frames -/

/-- What a level belongs to. -/
inductive FrameKind where
  /-- The program. -/
  | root
  /-- Statements in braces. -/
  | block
  /-- The arguments of a call. -/
  | call (callee : Nat)
  /-- The header of a construct. -/
  | header (construct : Construct)
  /-- The parameters of a function. -/
  | params (name : String) (anonymous : Bool)

namespace FrameKind

/-- The delimiter that opens the level. -/
def opener : FrameKind → Char
  | root => '\x00'
  | block => '\x7b'
  | call _ | header _ | params .. => '('

/-- The delimiter that closes the level. -/
def closer : FrameKind → Char
  | root => '\x00'
  | block => '\x7d'
  | call _ | header _ | params .. => ')'

end FrameKind

/-- One level. Every list has its latest element first. -/
structure Frame where
  /-- What the level belongs to. -/
  kind : FrameKind
  /-- Where that starts. -/
  span : Span
  /-- The parts of the statement that is being read. -/
  items : List Item := []
  /-- The finished statements since the last separator of parts. -/
  lines : List Nat := []
  /-- The parts between separators; an empty part is none. -/
  parts : List (Option Nat) := []
  /-- Where the open grouping parentheses stand. -/
  groups : List Span := []

namespace Frame

/-- The frame with an item on top of its stack. -/
def push (frame : Frame) (item : Item) : Frame := { frame with items := item :: frame.items }

/-- The loose operands and operators on top of the stack, from left to right. -/
def looseRun (frame : Frame) : Run :=
  ((frame.items.takeWhile Item.isRun).filterMap Item.run?).reverse

/-- Ends the expression: what is loose on top of the stack becomes a node. -/
def closeExpression (frame : Frame) (a : Arena) : Except Halt (Frame × Arena) :=
  match frame.items with
  | .run _ :: _ => do
    let (link, a) ← frame.looseRun.assemble a
    return ({ frame with items := .node link :: frame.items.dropWhile Item.isRun }, a)
  | _ => .ok (frame, a)

/-- Ends the statement: its items become a line. -/
def closeLine (frame : Frame) (a : Arena) : Except Halt (Frame × Arena) := do
  let (frame, a) ← frame.closeExpression a
  let (line, a) ← weldFrom [] none frame.items a
  return ({ frame with items := [], lines := line.toList ++ frame.lines }, a)

/-- The part that the finished statements make: none, or the only one. -/
def partOfLines (a : Arena) : List Nat → Except Halt (Option Nat)
  | [] => .ok none
  | [link] => .ok (some link)
  | _ :: second :: _ => do fail { fault := .missingSeparator, span := ← a.spanOf second }

/-- Ends a part. -/
def closePart (frame : Frame) (a : Arena) : Except Halt (Frame × Arena) := do
  let (frame, a) ← frame.closeLine a
  let part ← partOfLines a frame.lines.reverse
  return ({ frame with lines := [], parts := part :: frame.parts }, a)

/-- The link of a part that has to be there. -/
def givenPart (missing : Missing) (close : Span) : Option Nat → Except Halt Nat
  | some link => .ok link
  | none => fail { fault := .expected missing, span := close }

/-- The parts of a list in their order. Only a list without separators may be empty. -/
def listParts (missing : Missing) (close : Span) (parts : List (Option Nat)) :
    Except Halt (List Nat) :=
  match parts with
  | [none] => .ok []
  | parts => parts.mapM (givenPart missing close)

end Frame

/-! ## The machine -/

/-- The state of the builder. -/
structure Machine where
  /-- The nodes made so far. -/
  arena : Arena := {}
  /-- The open levels, innermost first. -/
  frames : List Frame
  /-- The tokens to come. -/
  rest : List Token
  /-- How many tokens were read. -/
  read : Nat := 0
  /-- The token before the one that is being handled. -/
  previous : Option Token := none
  /-- The token that is being handled. -/
  current : Option Token := none
  /-- How many tokens were read when a construct's header was last closed. -/
  headerEnd : Option Nat := none
  /-- How many tokens were read when a call was last closed. -/
  callEnd : Option Nat := none
  /-- How many functions without a name there have been. -/
  anonymous : Nat := 0

namespace Machine

variable (m : Machine)

/-! ### Tokens -/

/-- Takes the next token, if there is one. -/
def next : Machine :=
  match m.rest with
  | [] => m
  | token :: rest =>
    { m with rest := rest, read := m.read + 1, previous := m.current, current := some token }

/-- Whether the token that is being handled comes right after so many tokens. -/
def follows (stop : Option Nat) : Bool := stop.any (· + 1 == m.read)

/-- Whether the token that is being handled follows an operand, so that a `-` subtracts. -/
def followsOperand : Bool :=
  match m.previous with
  | none => false
  | some token =>
    !m.follows m.headerEnd &&
      match token.kind with
      | .int _ | .float _ | .literal _ => true
      | .separator | .eof => false
      | .word text => Previous.wordEndsOperand text

/-- Whether a `(` that is being handled can call what stands before it. -/
def followsCallable : Bool :=
  (m.previous.bind (·.kind.word?)).any isIdentifier || m.follows m.callEnd

/-! ### Frames -/

/-- The innermost level. -/
def top : Except Halt Frame :=
  match m.frames with
  | frame :: _ => .ok frame
  | [] => crash .noFrame

/-- Changes the innermost level. -/
def mapTop (f : Frame → Frame) : Except Halt Machine :=
  match m.frames with
  | frame :: outer => .ok { m with frames := f frame :: outer }
  | [] => crash .noFrame

/-- Changes the innermost level and the arena by a step that can halt. -/
def tryTop (f : Frame → Arena → Except Halt (Frame × Arena)) : Except Halt Machine :=
  match m.frames with
  | frame :: outer => do
    let (frame, a) ← f frame m.arena
    return { m with arena := a, frames := frame :: outer }
  | [] => crash .noFrame

/-- Opens a level. -/
def enter (kind : FrameKind) (span : Span) : Machine :=
  { m with frames := { kind := kind, span := span } :: m.frames }

/-- Closes the innermost level. -/
def pop : Except Halt (Frame × Machine) :=
  match m.frames with
  | frame :: outer => .ok (frame, { m with frames := outer })
  | [] => crash .noFrame

/-- Adds a node to the arena. -/
def alloc (cell : Cell) (span : Span) : Except Halt (Nat × Machine) := do
  let (link, a) ← m.arena.alloc cell span
  return (link, { m with arena := a })

/-- Adds an operand to the expression. -/
def operand (cell : Cell) (span : Span) : Except Halt Machine := do
  let (link, m) ← m.alloc cell span
  m.mapTop (·.push (.run (.operand link)))

/-- Adds an operator to the expression. Open groups raise its precedence. -/
def operator (op : Operator) (base : Nat) (span : Span) : Except Halt Machine :=
  m.mapTop fun frame =>
    frame.push (.run (.operator op (effectivePrecedence base frame.groups.length) span))

/-! ### Delimiters -/

/-- A `(`: a call if it follows something that can be called, and a group otherwise. -/
def openParen (span : Span) : Except Halt Machine := do
  let frame ← m.top
  match frame.items, m.followsCallable with
  | .run (.operand callee) :: items, true =>
    let m ← m.mapTop fun frame => { frame with items := items }
    return m.enter (.call callee) ((← m.arena.spanOf callee).merge span)
  | _, _ => m.mapTop fun frame => { frame with groups := span :: frame.groups }

/-- The end of a call: the call is an operand. -/
def finishCall (callee : Nat) (close : Span) : Except Halt Machine := do
  let m ← m.tryTop Frame.closePart
  let (frame, m) ← m.pop
  let args ← Frame.listParts .argument close frame.parts.reverse
  let (args, a) ← m.arena.allocLinks args
  let m ← { m with arena := a }.operand (.call callee args) (frame.span.merge close)
  return { m with callEnd := some m.read }

/-- The item that a construct's header makes of its parts. -/
def headerItem (construct : Construct) (span close : Span) (parts : List (Option Nat)) :
    Except Halt Item :=
  match construct, parts with
  | .branch, [some cond] => .ok (.branch cond span)
  | .whileLoop, [some cond] => .ok (.whileLoop cond span)
  | .forLoop, [init, cond, step] => .ok (.forLoop init cond step span)
  | .forLoop, [_, _] => fail { fault := .forEach, span := span.merge close }
  | .forLoop, parts => fail { fault := .invalidHeader parts.length, span := span.merge close }
  | _, [none] => fail { fault := .expected .condition, span := close }
  | _, _ => fail { fault := .unexpectedWord ";", span := span.merge close }

/-- The end of a construct's header. -/
def finishHeader (construct : Construct) (close : Span) : Except Halt Machine := do
  let m ← m.tryTop Frame.closePart
  let (frame, m) ← m.pop
  let item ← headerItem construct frame.span close frame.parts.reverse
  let m ← m.mapTop (·.push item)
  return { m with headerEnd := some m.read }

/-- The parameter that an expression in a parameter list stands for. -/
def formalOf (a : Arena) (link : Nat) : Except Halt Formal := do
  let entry ← a.entry link
  match entry.cell with
  | .ident name _ => return ⟨name, none, entry.span⟩
  | .assign target _ .plain none value => return ⟨target, some value, entry.span⟩
  | _ => fail { fault := .invalidParameter, span := entry.span }

/-- The end of a parameter list. The body has to come next. -/
def finishParams (name : String) (anonymous : Bool) (close : Span) : Except Halt Machine := do
  let m ← m.tryTop Frame.closePart
  let (frame, m) ← m.pop
  let links ← Frame.listParts .parameter close frame.parts.reverse
  let formals ← links.mapM (formalOf m.arena)
  let (params, a) ← m.arena.allocFormals formals
  let m := { m with arena := a }
  if wordAhead m.rest = some "\x7b" then m.mapTop (·.push (.define name anonymous params frame.span))
  else fail { fault := .missingBody, span := spanAhead m.rest close }

/-- A `)`: it closes a group, or else what the innermost frame belongs to. -/
def closeParen (span : Span) : Except Halt Machine := do
  let frame ← m.top
  match frame.groups, frame.kind with
  | _ :: groups, _ => m.mapTop fun frame => { frame with groups := groups }
  | [], .call callee => m.finishCall callee span
  | [], .header construct => m.finishHeader construct span
  | [], .params name anonymous => m.finishParams name anonymous span
  | [], .root => fail { fault := .unmatchedParen, span := span }
  | [], .block =>
    fail { fault := .mismatched '\x7d' ')', span := span, opened := some frame.span }

/-- A `\x7b`: it opens a block. -/
def openBrace (span : Span) : Except Halt Machine := do
  let m ← m.tryTop Frame.closeExpression
  return m.enter .block span

/-- Puts a finished block in its place. The body of a function that is a value makes an operand; any
other block ends its statement, unless an `else` comes next. -/
def placeBlock (block : Nat) : Except Halt Machine := do
  let frame ← m.top
  match frame.items with
  | .define name true params span :: items =>
    let m ← m.mapTop fun frame => { frame with items := items }
    let (link, a) ← completeFunction m.arena name true params block span
    { m with arena := a }.mapTop (·.push (.run (.operand link)))
  | _ =>
    let m ← m.mapTop (·.push (.node block))
    if wordAhead m.rest = some "else" then return m else m.tryTop Frame.closeLine

/-- The end of a block. -/
def finishBlock (close : Span) : Except Halt Machine := do
  let m ← m.tryTop Frame.closeLine
  let (frame, m) ← m.pop
  let (stmts, a) ← m.arena.allocLinks frame.lines.reverse
  let (block, m) ← { m with arena := a }.alloc (.block stmts) (frame.span.merge close)
  m.placeBlock block

/-- A `\x7d`: it closes the innermost block. -/
def closeBrace (span : Span) : Except Halt Machine := do
  let frame ← m.top
  match frame.groups, frame.kind with
  | opening :: _, _ =>
    fail { fault := .mismatched ')' '\x7d', span := span, opened := some opening }
  | [], .block => m.finishBlock span
  | [], .root => fail { fault := .unexpectedWord "\x7d", span := span }
  | [], kind =>
    fail { fault := .mismatched kind.closer '\x7d', span := span, opened := some frame.span }

/-! ### Separators -/

/-- A `;`: between statements, or between the parts of a header. -/
def semicolon (span : Span) : Except Halt Machine := do
  let frame ← m.top
  match frame.kind, frame.groups with
  | .root, opening :: _ | .block, opening :: _ => fail { fault := .unclosed '(', span := opening }
  | .root, [] | .block, [] => m.tryTop Frame.closeLine
  | .header _, [] => m.tryTop Frame.closePart
  | _, _ => fail { fault := .unexpectedWord ";", span := span }

/-- A `,`: between arguments or parameters. -/
def comma (span : Span) : Except Halt Machine := do
  let frame ← m.top
  match frame.kind, frame.groups with
  | .call _, [] | .params .., [] => m.tryTop Frame.closePart
  | _, _ => fail { fault := .unexpectedWord ",", span := span }

/-! ### Statements -/

/-- A `=`: what stands before it has to be a name, outside every group. -/
def equals (span : Span) : Except Halt Machine := do
  let frame ← m.top
  match frame.groups, frame.looseRun with
  | [], [.operand link] =>
    let entry ← m.arena.entry link
    match entry.cell with
    | .ident name _ =>
      m.mapTop fun frame => { frame with items := .assign name .plain entry.span :: frame.items.tail }
    | _ => fail { fault := .invalidTarget, span := entry.span }
  | _, _ => fail { fault := .invalidTarget, span := span }

/-- An `else`: it has to follow a finished expression. -/
def otherwise (span : Span) : Except Halt Machine := do
  let m ← m.tryTop Frame.closeExpression
  let frame ← m.top
  match frame.items with
  | .node _ :: _ => m.mapTop (·.push (.otherwise span))
  | _ => fail { fault := .strayElse, span := span }

/-- Takes the `(` that has to come next. -/
def expectParen (keyword : String) (span : Span) : Except Halt Machine :=
  if wordAhead m.rest = some "(" then .ok m.next
  else fail { fault := .expectedParen keyword, span := spanAhead m.rest span }

/-- The start of a construct, up to the `(` of its header. -/
def construct (construct : Construct) (span : Span) : Except Halt Machine := do
  let m ← m.tryTop Frame.closeExpression
  let m ← m.expectParen construct.keyword span
  return m.enter (.header construct) span

/-- The start of a function, up to the `(` of its parameters. -/
def function (keyword : String) (span : Span) : Except Halt Machine :=
  match (wordAhead m.rest).filter isIdentifier with
  | some name => do
    let m ← m.next.tryTop Frame.closeExpression
    let m ← m.expectParen keyword span
    return m.enter (.params name false) span
  | none => do
    let name := "anon#" ++ toString m.anonymous
    let m ← { m with anonymous := m.anonymous + 1 }.expectParen keyword span
    return m.enter (.params name true) span

/-- A declaration without a value: a variable starts out as nothing, a constant needs a value. -/
def declareBare (decl : DeclKind) (name : String) (span : Span) : Except Halt Machine :=
  if decl = .const then fail { fault := .expected .initializer, span := span }
  else do
    let (value, m) ← m.alloc .null span
    let (link, m) ← m.alloc (.assign name .unresolved decl none value) span
    m.mapTop (·.push (.node link))

/-- A declaration after its name, up to the `=` before its value. -/
def declareAhead (decl : DeclKind) (name : String) (span : Span) : Except Halt Machine :=
  if wordAhead m.rest = some "=" then m.next.mapTop (·.push (.assign name decl span))
  else m.declareBare decl name span

/-- A declaration. -/
def declare (decl : DeclKind) (span : Span) : Except Halt Machine := do
  let m ← m.tryTop Frame.closeExpression
  match (wordAhead m.rest).filter isIdentifier with
  | none => fail { fault := .invalidTarget, span := spanAhead m.rest span }
  | some name => m.next.declareAhead decl name (span.merge (spanAhead m.rest span))

/-! ### Steps -/

/-- Handles a word. -/
def word (text : String) (span : Span) : Except Halt Machine :=
  match Role.ofWord text with
  | .openParen => m.openParen span
  | .closeParen => m.closeParen span
  | .openBrace => m.openBrace span
  | .closeBrace => m.closeBrace span
  | .comma => m.comma span
  | .equals => m.equals span
  | .construct construct => m.construct construct span
  | .otherwise => m.otherwise span
  | .function => m.function text span
  | .declare decl => m.declare decl span
  | .ret => m.operator .ret returnPrecedence span
  | .breakLoop => m.operand .breakLoop span
  | .continueLoop => m.operand .continueLoop span
  | .bool value => m.operand (.bool value) span
  | .null => m.operand .null span
  | .unsupported => fail { fault := .unsupported text, span := span }
  | .minus =>
    if m.followsOperand then m.operator (.binary .sub) BinaryOp.sub.precedence span
    else m.operator (.unary .neg) UnaryOp.neg.precedence span
  | .unary op => m.operator (.unary op) op.precedence span
  | .binary op => m.operator (.binary op) op.precedence span
  | .compound op => m.operator (.compound op) compoundPrecedence span
  | .name => m.operand (.ident text .unresolved) span
  | .unknown => fail { fault := .unexpectedWord text, span := span }

/-- Handles a token. -/
def step (token : Token) : Except Halt Machine :=
  match token.kind with
  | .int value => m.operand (.int value) token.span
  | .float bits => m.operand (.float bits) token.span
  | .literal text => m.operand (.str text) token.span
  | .separator => m.semicolon token.span
  | .eof => .ok m
  | .word text => m.word text token.span

/-- Ends the program. Every delimiter has to be closed. -/
def finish : Except Halt Layout := do
  let frame ← m.top
  if 1 < m.frames.length then fail { fault := .unclosed frame.kind.opener, span := frame.span }
  else
    match frame.groups with
    | opening :: _ => fail { fault := .unclosed '(', span := opening }
    | [] =>
      let m ← m.tryTop Frame.closeLine
      let (root, m) ← m.pop
      let (body, a) ← m.arena.allocLinks root.lines.reverse
      return ⟨a, body⟩

end Machine

/-- Reads tokens up to the first end token, in at most so many rounds. -/
def runIn (rounds : Nat) (m : Machine) : Except Halt Layout :=
  match rounds, m.rest with
  | _, [] => m.finish
  | 0, _ :: _ => crash .stalled
  | rounds + 1, token :: _ =>
    if token.kind = .eof then m.next.finish
    else do
      let m ← m.next.step token
      runIn rounds m

/-- The program that the tokens up to the first end token make. Every round reads a token. -/
def build (tokens : List Token) : Except Halt Layout :=
  runIn tokens.length { frames := [{ kind := .root, span := ⟨0, 0⟩ }], rest := tokens }

end SlotScript.Flat
