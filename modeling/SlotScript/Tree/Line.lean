import SlotScript.Tree.Run

/-!
# Lines: the parts of one statement

While a statement is read its finished parts wait in a list of items: expressions, the heads of
constructs whose bodies are still to come, and assignments whose values are. `weld` joins them
into one statement when the statement ends. It goes from the last item back to the first, so
that a head finds its body among the nodes that are already there.
-/

namespace SlotScript

/-- The head of a function: its name, its parameters, and the span of its keyword. -/
structure FunctionHead where
  /-- The name, a made-up one for a function without a name of its own. -/
  name : String
  /-- The parameters in order. -/
  params : List Param
  /-- Where the head starts. -/
  span : Span

/-- A part of a statement that waits for the statement's end. -/
inductive Item where
  /-- A finished expression. -/
  | node (node : Node)
  /-- An `else` between two branches. -/
  | otherwise (span : Span)
  /-- The target of an assignment. -/
  | assign (target : String) (decl : DeclKind) (span : Span)
  /-- An `if` with its condition. -/
  | branch (cond : Node) (span : Span)
  /-- A `while` with its condition. -/
  | whileLoop (cond : Node) (span : Span)
  /-- A `for` with its header. -/
  | forLoop (init cond step : Option Node) (span : Span)
  /-- A named function's head. -/
  | define (head : FunctionHead)

/-- Whether an `else` branch can look for its `if` past the item. -/
def Item.admitsElse : Item → Bool
  | .node _ | .branch .. => true
  | _ => false

/-- A function from its head and its body, which has to be a block. -/
def FunctionHead.complete (head : FunctionHead) (binding : Option VarRef) (body : Node) :
    Except BuildError Node :=
  match body with
  | .block .. =>
    .ok (.define head.name binding head.params body .blank (head.span.merge body.span))
  | _ => .error { fault := .missingBody, span := body.span }

namespace Line

/-- The one node that a head takes as its body or its value. -/
def takeOne (missing : Missing) (span : Span) : List Node → Except BuildError Node
  | [] => .error { fault := .expected missing, span := span }
  | [node] => .ok node
  | _ :: second :: _ => .error { fault := .missingSeparator, span := second.span }

/-- Joins the items of a statement, the last item first. `waiting` are the nodes to the right
that no head has taken yet, and `otherwise` is an `else` branch that looks for its `if`. -/
def weldFrom (waiting : List Node) (otherwise : Option (Node × Span)) :
    List Item → Except BuildError (Option Node)
  | [] =>
    match otherwise, waiting with
    | some (_, span), _ => .error { fault := .strayElse, span := span }
    | none, [] => .ok none
    | none, [node] => .ok (some node)
    | none, _ :: second :: _ => .error { fault := .missingSeparator, span := second.span }
  | item :: rest =>
    match otherwise, item.admitsElse with
    | some (_, span), false => .error { fault := .strayElse, span := span }
    | _, _ =>
      match item with
      | .node node => weldFrom (node :: waiting) otherwise rest
      | .otherwise span => do
        let branch ← takeOne .elseBranch span waiting
        weldFrom [] (some (branch, span)) rest
      | .assign target decl span => do
        let value ← takeOne .value span waiting
        weldFrom [.assign target .unresolved decl none value (span.merge value.span)] otherwise
          rest
      | .branch cond span => do
        let yes ← takeOne .ifBody span waiting
        let no := otherwise.map (·.1)
        weldFrom [.branch cond yes no .blank .blank (span.merge (no.getD yes).span)] none rest
      | .whileLoop cond span => do
        let body ← takeOne .loopBody span waiting
        weldFrom [.whileLoop cond body .blank .blank (span.merge body.span)] otherwise rest
      | .forLoop init cond step span => do
        let body ← takeOne .loopBody span waiting
        weldFrom [.forLoop init cond step body .blank .blank (span.merge body.span)] otherwise
          rest
      | .define head => do
        let body ← takeOne .functionBody head.span waiting
        weldFrom [← head.complete (some .unresolved) body] otherwise rest

/-- The statement that the items make, the last item first; none if there are no items. -/
def weld (items : List Item) : Except BuildError (Option Node) := weldFrom [] none items

end Line

end SlotScript
