import SlotScript.Proofs.Tree.Fold
import SlotScript.Proofs.Tree.Weld

/-!
# The words of a tree

A tree is read off from left to right: operands and names, operators, assignment signs, keywords
and braces, each construct in the order of its source. What it was written with besides, the
parentheses, commas and semicolons, is not in the tree. `significant` says which words a list of
tokens leaves: a `let` reads as `var`, a `function` as `def`, and a variable that is declared
without a value reads as one that is given `null`.

The builder holds a half-read program in many places: in runs, in items, in lines and parts, in
the openers of its frames and in its expectation. Each place has a reading, and the reading of a
builder goes through them from the outermost level inwards. Folding a run, welding a line and
closing a level move words between these places and keep their order.
-/

namespace SlotScript

/-! ## Reading a tree -/

/-- What stands before a declared name. -/
def DeclKind.reading : DeclKind → List TokenKind
  | .plain => []
  | .var => [.word "var"]
  | .const => [.word "const"]

/-- The sign of an assignment. -/
def assignSign : Option BinaryOp → TokenKind
  | none => .word "="
  | some op => .word op.compoundSymbol

/-- What stands before the value of an assignment. -/
def assignReading (target : String) (decl : DeclKind) (op : Option BinaryOp) : List TokenKind :=
  decl.reading ++ [.word target, assignSign op]

/-- The keyword of a function, and its name if it has one of its own. -/
def functionReading (name : String) (anonymous : Bool) : List TokenKind :=
  .word "def" :: if anonymous then [] else [.word name]

mutual

/-- The words of a node. -/
def Node.reading : Node → List TokenKind
  | .int value _ => [.int value]
  | .float bits _ => [.float bits]
  | .bool value _ => [.word (if value then "true" else "false")]
  | .str text _ => [.literal text]
  | .null _ => [.word "null"]
  | .ident name _ _ => [.word name]
  | .unary op operand _ => .word op.symbol :: operand.reading
  | .binary op left right _ => left.reading ++ .word op.symbol :: right.reading
  | .assign target _ decl op value _ => assignReading target decl op ++ value.reading
  | .branch cond yes no _ _ _ =>
    .word "if" :: (cond.reading ++ yes.reading ++ readingElse no)
  | .whileLoop cond body _ _ _ => .word "while" :: (cond.reading ++ body.reading)
  | .forLoop init cond step body _ _ _ =>
    .word "for" :: (readingOption init ++ readingOption cond ++ readingOption step ++
      body.reading)
  | .define name binding params body _ _ =>
    functionReading name binding.isNone ++ readingParams params ++ body.reading
  | .call callee args _ => callee.reading ++ readingAll args
  | .block body _ => .word "\x7b" :: readingAll body ++ [.word "\x7d"]
  | .breakLoop _ => [.word "break"]
  | .continueLoop _ => [.word "continue"]
  | .ret value _ => .word "return" :: readingOption value

/-- The words of a part that may be missing. -/
def readingOption : Option Node → List TokenKind
  | none => []
  | some node => node.reading

/-- The words of an `else` branch. -/
def readingElse : Option Node → List TokenKind
  | none => []
  | some node => .word "else" :: node.reading

/-- The words of nodes one after the other. -/
def readingAll : List Node → List TokenKind
  | [] => []
  | node :: rest => node.reading ++ readingAll rest

/-- The words of a parameter. -/
def Param.reading : Param → List TokenKind
  | .mk name default _ => .word name :: readingDefault default

/-- The words of a default. -/
def readingDefault : Option Node → List TokenKind
  | none => []
  | some node => .word "=" :: node.reading

/-- The words of parameters one after the other. -/
def readingParams : List Param → List TokenKind
  | [] => []
  | param :: rest => param.reading ++ readingParams rest

end

/-- The words of a program. -/
def Program.reading (program : Program) : List TokenKind := readingAll program.body

theorem readingAll_append (nodes rest : List Node) :
    readingAll (nodes ++ rest) = readingAll nodes ++ readingAll rest := by
  induction nodes with
  | nil => simp [readingAll]
  | cons node nodes ih => simp [readingAll, ih]

/-! ## The words of a list of tokens -/

/-- The word as it is read off, if it is not a parenthesis or a comma. -/
def wordReading (text : String) : List TokenKind :=
  if text = "(" ∨ text = ")" ∨ text = "," then []
  else if text = "let" then [.word "var"]
  else if text = "function" then [.word "def"]
  else [.word text]

/-- The token as it is read off, if it leaves a trace. -/
def TokenKind.reading : TokenKind → List TokenKind
  | .word text => wordReading text
  | .separator => []
  | kind => [kind]

mutual

/-- The tokens, with the value that a variable has which is declared without one. -/
def completed : List TokenKind → List TokenKind
  | [] => []
  | kind :: rest =>
    if kind = .word "var" ∨ kind = .word "let" then kind :: completedName rest
    else kind :: completed rest

/-- The same where a declared name comes next. -/
def completedName : List TokenKind → List TokenKind
  | [] => []
  | name :: rest =>
    if rest.head? = some (.word "=") then name :: completed rest
    else name :: .word "=" :: .word "null" :: completed rest

end

/-- The words that a list of tokens leaves in a tree. -/
def significant (kinds : List TokenKind) : List TokenKind :=
  (completed kinds).flatMap TokenKind.reading

/-! ## Reading a half-built program -/

/-- The word of an operator. -/
def Operator.reading : Operator → List TokenKind
  | .binary op => [.word op.symbol]
  | .compound op => [.word op.compoundSymbol]
  | .unary op => [.word op.symbol]
  | .ret => [.word "return"]

/-- The words of an item of a run. -/
def RunItem.reading : RunItem → List TokenKind
  | .operand node => node.reading
  | .operator op _ _ => op.reading

/-- The words of a function's head. -/
def FunctionHead.reading (head : FunctionHead) (anonymous : Bool) : List TokenKind :=
  functionReading head.name anonymous ++ readingParams head.params

/-- The words of an item of a statement. -/
def Item.reading : Item → List TokenKind
  | .node n => n.reading
  | .otherwise _ => [.word "else"]
  | .assign target decl _ => assignReading target decl none
  | .branch cond _ => .word "if" :: cond.reading
  | .whileLoop cond _ => .word "while" :: cond.reading
  | .forLoop init cond step _ =>
    .word "for" :: (readingOption init ++ readingOption cond ++ readingOption step)
  | .define head => head.reading false

/-- The words that a level has collected. -/
def Level.reading (level : Level) : List TokenKind :=
  level.parts.reverse.flatMap readingOption ++ readingAll level.lines.reverse ++
    level.items.reverse.flatMap Item.reading ++ level.run.reverse.flatMap RunItem.reading

/-- The words that a frame was opened with. -/
def Opener.reading : Opener → List TokenKind
  | .block none => [.word "\x7b"]
  | .block (some head) => head.reading true ++ [.word "\x7b"]
  | .call callee => callee.reading
  | .header construct => [.word construct.keyword]
  | .params name anonymous => functionReading name anonymous

/-- The words of a frame. -/
def Frame.reading (frame : Frame) : List TokenKind := frame.opener.reading ++ frame.level.reading

/-- The words that an expectation stands for. -/
def Expectation.reading : Expectation → List TokenKind
  | .any | .otherwise => []
  | .header construct _ => [.word construct.keyword]
  | .function _ _ => [.word "def"]
  | .params name _ _ => functionReading name false
  | .body head anonymous _ => head.reading anonymous
  | .target decl _ => decl.reading
  | .initializer decl name _ => decl.reading ++ [.word name]

/-- The words that the levels of a builder have collected. -/
def Builder.collected (b : Builder) : List TokenKind :=
  b.root.reading ++ b.frames.reverse.flatMap Frame.reading

/-! ## Runs and lines -/

namespace Run

theorem headRedex_reading {run after : Run} {p : Nat} {node : Node}
    (h : headRedex run = some (p, .ok node, after)) :
    run.flatMap RunItem.reading = node.reading ++ after.flatMap RunItem.reading := by
  cases makes_of_headRedex h <;>
    simp [RunItem.reading, Operator.reading, Node.reading, readingOption, assignReading,
      DeclKind.reading, assignSign]

theorem reduce_reading {run after : Run} {p : Nat} (h : reduce run = some (p, .ok after)) :
    after.flatMap RunItem.reading = run.flatMap RunItem.reading := by
  obtain ⟨i, out, rest, hhead, hafter, -⟩ := reduce_eq_some h
  cases out with
  | error e => cases hafter
  | ok node =>
    obtain rfl : after = run.take i ++ .operand node :: rest := by simpa [Except.map] using hafter
    calc (run.take i ++ .operand node :: rest).flatMap RunItem.reading
        = (run.take i).flatMap RunItem.reading ++
            (node.reading ++ rest.flatMap RunItem.reading) := by
          simp [RunItem.reading]
      _ = (run.take i).flatMap RunItem.reading ++ (run.drop i).flatMap RunItem.reading := by
          rw [headRedex_reading hhead]
      _ = run.flatMap RunItem.reading := by
          rw [← List.flatMap_append, List.take_append_drop]

/-- Folding a run keeps its words in their order. -/
theorem assemble_reading {run : Run} {node : Node} (h : assemble run = .ok node) :
    node.reading = run.flatMap RunItem.reading := by
  refine assemble_ok_induction
    (motive := fun run node => node.reading = run.flatMap RunItem.reading) ?_ ?_ h
  · intro operand
    simp [RunItem.reading]
  · intro run p after node hreduce hafter
    rw [hafter, reduce_reading hreduce]

end Run

theorem FunctionHead.complete_reading {head : FunctionHead} {binding : Option VarRef}
    {body node : Node} (h : head.complete binding body = .ok node) :
    node.reading = head.reading binding.isNone ++ body.reading := by
  cases body with
  | block lines span =>
    cases h
    simp [Node.reading, FunctionHead.reading]
  | _ => cases h

namespace Line

/-- What an item is joined to reads on as what the two leave. -/
theorem Joins.reading {waiting waiting' : List Node} {otherwise otherwise' : Option (Node × Span)}
    {item : Item} (h : Joins waiting otherwise item waiting' otherwise') :
    readingAll waiting' ++ readingElse (otherwise'.map (·.1)) =
      item.reading ++ readingAll waiting ++ readingElse (otherwise.map (·.1)) := by
  cases h with
  | define hnode => simp [Item.reading, readingAll, FunctionHead.complete_reading hnode]
  | _ => simp [Item.reading, readingAll, readingElse, Node.reading]

/-- Welding keeps the words of the items in their order. An `else` branch that waits for its `if`
stands behind the nodes that wait. -/
theorem weldFrom_reading {waiting : List Node} {otherwise : Option (Node × Span)}
    {items : List Item} {line : Option Node} (h : weldFrom waiting otherwise items = .ok line) :
    readingOption line = items.reverse.flatMap Item.reading ++ readingAll waiting ++
      readingElse (otherwise.map (·.1)) := by
  induction items generalizing waiting otherwise with
  | nil =>
    obtain ⟨rfl, rfl⟩ := weldFrom_nil_eq_ok h
    cases line <;> simp [readingOption, readingAll, readingElse]
  | cons item rest ih =>
    obtain ⟨waiting', otherwise', hjoins, h⟩ := weldFrom_cons_eq_ok h
    rw [ih h, List.append_assoc, hjoins.reading]
    simp

theorem weld_reading {items : List Item} {line : Option Node} (h : weld items = .ok line) :
    readingOption line = items.reverse.flatMap Item.reading := by
  simpa [readingAll, readingElse] using weldFrom_reading h

end Line

/-! ## Levels -/

namespace Level

variable {level after : Level}

theorem closeExpression_reading (h : level.closeExpression = .ok after) :
    after.reading = level.reading := by
  rcases closeExpression_eq_ok h with ⟨-, rfl⟩ | ⟨node, hnode, rfl⟩
  · rfl
  · simp [reading, Item.reading, Run.assemble_reading hnode]

theorem closeLine_reading (h : level.closeLine = .ok after) : after.reading = level.reading := by
  obtain ⟨closed, line, hclosed, hline, rfl⟩ := closeLine_eq_ok h
  rw [← closeExpression_reading hclosed]
  have hwords := Line.weld_reading hline
  cases line with
  | none => simp [reading, ← hwords, readingOption]
  | some node => simp [reading, ← hwords, readingOption, readingAll_append, readingAll]

theorem closePart_reading (h : level.closePart = .ok after) : after.reading = level.reading := by
  obtain ⟨closed, part, hclosed, hpart, rfl⟩ := closePart_eq_ok h
  rw [← closeLine_reading hclosed]
  cases part with
  | none => simp [reading, hpart, readingOption, readingAll]
  | some node => simp [reading, hpart, readingOption, readingAll]

/-- A level whose last part has been closed holds nothing but parts. -/
theorem closePart_parts (h : level.closePart = .ok after) :
    after.parts.reverse.flatMap readingOption = level.reading := by
  rw [← closePart_reading h]
  obtain ⟨hrun, hitems, hlines⟩ := closePart_empty h
  simp [reading, readingAll, hrun, hitems, hlines]

/-- A level whose last statement has been closed holds no loose words. -/
theorem closeLine_lines (h : level.closeLine = .ok after) :
    after.parts.reverse.flatMap readingOption ++ readingAll after.lines.reverse =
      level.reading := by
  rw [← closeLine_reading h]
  obtain ⟨hrun, hitems⟩ := closeLine_empty h
  simp [reading, hrun, hitems]

theorem listParts_reading {missing : Missing} {close : Span} {parts : List (Option Node)}
    {nodes : List Node} (h : listParts missing close parts = .ok nodes) :
    readingAll nodes = parts.flatMap readingOption := by
  rcases listParts_eq_ok h with ⟨rfl, rfl⟩ | rfl
  · simp [readingAll, readingOption]
  · clear h
    induction nodes with
    | nil => simp [readingAll]
    | cons node rest ih => simpa [readingAll, readingOption] using ih

end Level

end SlotScript
