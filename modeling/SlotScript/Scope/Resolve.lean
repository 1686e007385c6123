import SlotScript.Tree
import SlotScript.Diagnostic
import SlotScript.Scope.Context

/-!
# Giving every name its place

`Program.resolve` walks the tree once, in the order in which the program runs, and gives every
occurrence of a name its place and every scope its shape. Scopes are opened by the program, by
functions, by the headers of loops, and by branches and loop bodies; a bare block opens none.

Only the innermost open scope can change, so a step takes the enclosing scopes as they are and
returns the innermost one with what the node declared. Whether the node stands in the body of a
loop of its own function is passed down.
-/

namespace SlotScript

/-- Why the names of a tree cannot be resolved. -/
inductive ScopeFault where
  /-- A `break` outside every loop of its function. -/
  | strayBreak
  /-- A `continue` outside every loop of its function. -/
  | strayContinue
  /-- An assignment to a constant. -/
  | constantAssigned (name : String)
deriving DecidableEq, Repr

/-- A fault and the node it was found in. -/
structure ScopeError where
  /-- What is wrong. -/
  fault : ScopeFault
  /-- Where. -/
  span : Span
deriving DecidableEq, Repr

namespace ScopeFault

/-- The fault in one line. -/
def message : ScopeFault → String
  | strayBreak => "`break` outside of a loop"
  | strayContinue => "`continue` outside of a loop"
  | constantAssigned name => "cannot assign twice to constant `" ++ name ++ "`"

/-- The code of the fault. -/
def code : ScopeFault → Code
  | strayBreak => .strayBreak
  | strayContinue => .strayContinue
  | constantAssigned _ => .constantAssigned

/-- Hints for a repair. -/
def suggestions : ScopeFault → List String
  | constantAssigned _ => ["declare it with `var` to make it reassignable"]
  | _ => []

end ScopeFault

/-- The error as a diagnostic. -/
def ScopeError.toDiagnostic (e : ScopeError) : Diagnostic :=
  { code := e.fault.code
    message := e.fault.message
    labels := [⟨e.span, "here", true⟩]
    suggestions := e.fault.suggestions }

/-- The place of an assignment's target without a keyword, once its value has been walked. A
constant cannot be assigned; a free name is declared, unless the assignment reads it first. -/
def resolveTarget (outer : List Context) (here : Context) (target : String)
    (op : Option BinaryOp) (span : Span) : Except ScopeError (VarRef × Context) :=
  match Place.find target (here :: outer), op with
  | .slot _ _ .const, _ => .error ⟨.constantAssigned target, span⟩
  | .slot distance index .var, _ => .ok (⟨.reference, .slot distance index .var⟩, here)
  | _, some _ => .ok (⟨.reference, .global⟩, here)
  | _, none => .ok (here.declare target .var)

mutual

/-- The node with its places and shapes, and the innermost scope after it. -/
def Node.resolve (inLoop : Bool) (outer : List Context) (here : Context) :
    Node → Except ScopeError (Node × Context)
  | .ident name _ span =>
    .ok (.ident name ⟨.reference, Place.find name (here :: outer)⟩ span, here)
  | .unary op operand span => do
    let (operand, here) ← operand.resolve inLoop outer here
    return (.unary op operand span, here)
  | .binary op left right span => do
    let (left, here) ← left.resolve inLoop outer here
    let (right, here) ← right.resolve inLoop outer here
    return (.binary op left right span, here)
  | .assign target _ .var op value span => do
    -- a declared name is in scope for its own value
    let (var, here) := here.declare target .var
    let (value, here) ← value.resolve inLoop outer here
    return (.assign target var .var op value span, here)
  | .assign target _ .const op value span => do
    let (var, here) := here.declare target .const
    let (value, here) ← value.resolve inLoop outer here
    return (.assign target var .const op value span, here)
  | .assign target _ .plain op value span => do
    let (value, here) ← value.resolve inLoop outer here
    let (var, here) ← resolveTarget outer here target op span
    return (.assign target var .plain op value span, here)
  | .branch cond yes no _ _ span => do
    let (cond, here) ← cond.resolve inLoop outer here
    let (yes, yesScope) ← yes.resolve inLoop (here :: outer) (.fresh .body)
    let (no, noScope) ← resolveOption inLoop (here :: outer) (.fresh .body) no
    return (.branch cond yes no yesScope.shape noScope.shape span, here)
  | .whileLoop cond body _ _ span => do
    let (cond, header) ← cond.resolve inLoop (here :: outer) (.fresh .header)
    let (body, bodyScope) ← body.resolve true (header :: here :: outer) (.fresh .body)
    return (.whileLoop cond body header.shape bodyScope.shape span, here)
  | .forLoop init cond step body _ _ span => do
    let (init, header) ← resolveOption inLoop (here :: outer) (.fresh .header) init
    let (cond, header) ← resolveOption inLoop (here :: outer) header cond
    let (step, header) ← resolveOption inLoop (here :: outer) header step
    let (body, bodyScope) ← body.resolve true (header :: here :: outer) (.fresh .body)
    return (.forLoop init cond step body header.shape bodyScope.shape span, here)
  | .define name (some _) params body _ span => do
    let (var, here) := here.declare name .var
    -- defaults run in the scope of the definition
    let (params, here) ← resolveParams inLoop outer here params
    let frame := (Context.fresh .function).declareAll (params.map Param.name)
    let (body, frame) ← body.resolve false (here :: outer) frame
    return (.define name (some var) params body frame.shape span, here)
  | .define name none params body _ span => do
    let (params, here) ← resolveParams inLoop outer here params
    let frame := (Context.fresh .function).declareAll (params.map Param.name)
    let (body, frame) ← body.resolve false (here :: outer) frame
    return (.define name none params body frame.shape span, here)
  | .call callee args span => do
    let (callee, here) ← callee.resolve inLoop outer here
    let (args, here) ← resolveAll inLoop outer here args
    return (.call callee args span, here)
  | .block body span => do
    let (body, here) ← resolveAll inLoop outer here body
    return (.block body span, here)
  | .breakLoop span =>
    if inLoop then .ok (.breakLoop span, here) else .error ⟨.strayBreak, span⟩
  | .continueLoop span =>
    if inLoop then .ok (.continueLoop span, here) else .error ⟨.strayContinue, span⟩
  | .ret value span => do
    let (value, here) ← resolveOption inLoop outer here value
    return (.ret value span, here)
  | .int value span => .ok (.int value span, here)
  | .float bits span => .ok (.float bits span, here)
  | .bool value span => .ok (.bool value span, here)
  | .str text span => .ok (.str text span, here)
  | .null span => .ok (.null span, here)

/-- A part that may be missing. -/
def resolveOption (inLoop : Bool) (outer : List Context) (here : Context) :
    Option Node → Except ScopeError (Option Node × Context)
  | none => .ok (none, here)
  | some node => do
    let (node, here) ← node.resolve inLoop outer here
    return (some node, here)

/-- Nodes one after the other. -/
def resolveAll (inLoop : Bool) (outer : List Context) (here : Context) :
    List Node → Except ScopeError (List Node × Context)
  | [] => .ok ([], here)
  | node :: rest => do
    let (node, here) ← node.resolve inLoop outer here
    let (rest, here) ← resolveAll inLoop outer here rest
    return (node :: rest, here)

/-- The defaults of parameters, one after the other. -/
def resolveParams (inLoop : Bool) (outer : List Context) (here : Context) :
    List Param → Except ScopeError (List Param × Context)
  | [] => .ok ([], here)
  | .mk name value span :: rest => do
    let (value, here) ← resolveOption inLoop outer here value
    let (rest, here) ← resolveParams inLoop outer here rest
    return (.mk name value span :: rest, here)

end

/-- The program with its places and shapes. -/
def Program.resolve (program : Program) : Except ScopeError Program := do
  let (body, scope) ← resolveAll false [] (.fresh .program) program.body
  return { body := body, shape := scope.shape }

end SlotScript
