import SlotScript.Tree.Line

/-!
# Levels: what one open delimiter has collected

The program and every open block, call, header and parameter list has a level of its own. A
level holds the expression that is being read, the items of the statement it belongs to, the
statements that are finished, and the parts between separators. Parentheses that only group are
not levels: a level counts the ones that are open in it.
-/

namespace SlotScript

/-- What one open delimiter has collected. Every list has its latest element first. -/
structure Level where
  /-- The operands and operators of the expression that is being read. -/
  run : Run := []
  /-- The finished parts of the statement that is being read. -/
  items : List Item := []
  /-- The finished statements since the last separator of parts. -/
  lines : List Node := []
  /-- The parts of a call, a header or a parameter list; an empty part is none. -/
  parts : List (Option Node) := []
  /-- Where the open grouping parentheses stand. -/
  groups : List Span := []

namespace Level

/-- The level with an operand at the end of its expression. -/
def operand (level : Level) (node : Node) : Level :=
  { level with run := .operand node :: level.run }

/-- The level with an operator at the end of its expression. Open groups raise its
precedence. -/
def operator (level : Level) (op : Operator) (base : Nat) (span : Span) : Level :=
  { level with
    run := .operator op (effectivePrecedence base level.groups.length) span :: level.run }

/-- The level with an item at the end of its statement. -/
def item (level : Level) (item : Item) : Level :=
  { level with items := item :: level.items }

/-- Ends the expression: its run becomes an item. -/
def closeExpression (level : Level) : Except BuildError Level :=
  match level.run with
  | [] => .ok level
  | run => do
    let node ← Run.assemble run.reverse
    return { level with run := [], items := .node node :: level.items }

/-- Ends the statement: its items become a line. -/
def closeLine (level : Level) : Except BuildError Level := do
  let level ← level.closeExpression
  let line ← Line.weld level.items
  return { level with items := [], lines := line.toList ++ level.lines }

/-- The part that the finished statements make: none, or the only one. -/
def partOfLines : List Node → Except BuildError (Option Node)
  | [] => .ok none
  | [node] => .ok (some node)
  | _ :: second :: _ => .error { fault := .missingSeparator, span := second.span }

/-- Ends a part. -/
def closePart (level : Level) : Except BuildError Level := do
  let level ← level.closeLine
  let part ← partOfLines level.lines.reverse
  return { level with lines := [], parts := part :: level.parts }

/-- The parts of a list in their order. Only a list without separators may be empty. -/
def listParts (missing : Missing) (close : Span) (parts : List (Option Node)) :
    Except BuildError (List Node) :=
  match parts with
  | [none] => .ok []
  | parts => parts.mapM fun part =>
    match part with
    | some node => .ok node
    | none => .error { fault := .expected missing, span := close }

end Level

end SlotScript
