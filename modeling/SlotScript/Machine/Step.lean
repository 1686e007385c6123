import SlotScript.Machine.Operation
import SlotScript.Machine.Store

/-!
# Running a tree, step by step

The machine evaluates one node at a time. Its control either asks for a node to be evaluated in
a scope or delivers how an evaluation ended; its stack lists what waits for that, the innermost
first; its store holds the variables. A step looks at the control and the top of the stack only.

An evaluation ends with a value, or it leaves the loop or the function that it stands in. The
latter passes over what waits until it meets a loop's body or the body of a call. An error ends
the run at once; the store stays as the failing step found it.
-/

namespace SlotScript

/-- How the evaluation of a node ends. -/
inductive Flow where
  /-- With a value. -/
  | normal (value : Value)
  /-- It leaves the innermost loop. -/
  | breakLoop
  /-- It goes on with the next round of the innermost loop. -/
  | continueLoop
  /-- It leaves the function with a value. -/
  | ret (value : Value)

/-- A loop that is running. -/
structure Loop where
  /-- The condition; without one the loop goes on. -/
  cond : Option Node
  /-- What runs between two rounds. -/
  step : Option Node
  /-- What runs in every round. -/
  body : Node
  /-- The shape of a round's scope. -/
  bodyShape : Shape
  /-- The scope of the header. -/
  header : ScopeId

/-- What waits for an evaluation to end. -/
inductive Waiting where
  /-- A unary operator for its operand. -/
  | unary (op : UnaryOp) (span : Span)
  /-- A binary operator for its left operand. -/
  | left (op : BinaryOp) (right : Node) (scope : ScopeId) (span : Span)
  /-- A binary operator for its right operand. -/
  | right (op : BinaryOp) (left : Value) (span : Span)
  /-- `&&` or `||` for its left operand. -/
  | logicalLeft (op : BinaryOp) (leftSpan : Span) (right : Node) (scope : ScopeId)
  /-- `&&` or `||` for its right operand. -/
  | logicalRight (rightSpan : Span)
  /-- An assignment for its value. -/
  | assign (target : String) (place : Place) (op : Option BinaryOp) (scope : ScopeId)
      (span : Span)
  /-- A branch for its condition. -/
  | branch (condSpan : Span) (yes : Node) (no : Option Node) (yesShape noShape : Shape)
      (scope : ScopeId)
  /-- A loop for its start. -/
  | loopInit (loop : Loop)
  /-- A loop for its condition; `last` is the value of the last round. -/
  | loopCond (loop : Loop) (last : Value) (condSpan : Span)
  /-- A loop for a round of its body. -/
  | loopBody (loop : Loop) (last : Value)
  /-- A loop for its step. -/
  | loopStep (loop : Loop) (last : Value)
  /-- A call for what is called. -/
  | callee (calleeSpan : Span) (args : List Node) (scope : ScopeId) (span : Span)
  /-- A call for an argument; `done` are the earlier ones, the latest first. -/
  | argument (closure : Closure) (done : List Value) (rest : List Node) (scope : ScopeId)
      (span : Span)
  /-- A call for the default of the parameter in a slot of its scope. -/
  | default (closure : Closure) (frame : ScopeId) (slot : Nat) (name : String)
      (rest : List Param) (site : Option Span)
  /-- A call for the body of the function. -/
  | body (site : Option Span)
  /-- A block for one of its statements. -/
  | block (rest : List Node) (scope : ScopeId)
  /-- A `return` for its value. -/
  | ret

/-- What the machine does next. -/
inductive Control where
  /-- Evaluate a node in a scope. -/
  | eval (node : Node) (scope : ScopeId)
  /-- Hand over how an evaluation ended. -/
  | deliver (flow : Flow)

/-- The state of a run. -/
structure Machine where
  /-- What comes next. -/
  control : Control
  /-- What waits, the innermost first. -/
  stack : List Waiting
  /-- The variables. -/
  store : Store

/-- What a step leads to. -/
inductive Step where
  /-- The run goes on. -/
  | next (machine : Machine)
  /-- Nothing waits any more. -/
  | done (flow : Flow) (store : Store)
  /-- An error. -/
  | failed (error : RunError) (store : Store)

namespace Step

/-- Evaluates a node. -/
def eval (node : Node) (scope : ScopeId) (stack : List Waiting) (store : Store) : Step :=
  .next ⟨.eval node scope, stack, store⟩

/-- Delivers a flow. -/
def deliver (flow : Flow) (stack : List Waiting) (store : Store) : Step :=
  .next ⟨.deliver flow, stack, store⟩

/-- Delivers a value. -/
def value (value : Value) (stack : List Waiting) (store : Store) : Step :=
  deliver (.normal value) stack store

/-- Raises a fault at a span. -/
def raise (fault : Fault) (span : Option Span) (store : Store) : Step :=
  .failed ⟨fault, span⟩ store

/-- Delivers the result of an operator. -/
def result (result : Except Fault Value) (span : Span) (stack : List Waiting) (store : Store) :
    Step :=
  match result with
  | .ok v => value v stack store
  | .error fault => raise fault (some span) store

end Step

/-- The fault for a variable that cannot be read or written. -/
def AccessError.fault (name : String) : AccessError → Fault
  | undefined => .undefined name
  | uninitialized => .uninitialized name
  | badAddress => .impossible .badAddress

namespace Machine

/-! ## Calls -/

/-- Gives the parameters of a call their values, from the arguments as long as there are any,
then from the defaults, which run in the scope of the definition. Then the body runs. -/
def bindParams (closure : Closure) (frame : ScopeId) (site : Option Span)
    (stack : List Waiting) : (slot : Nat) → List Param → List Value → Store → Step
  | _, [], _, store => .eval closure.body frame (.body site :: stack) store
  | slot, param :: rest, value :: values, store =>
    match store.cell? frame (.slot 0 slot .var) param.name with
    | none => .raise (.impossible .badAddress) site store
    | some cell => bindParams closure frame site stack (slot + 1) rest values
        (store.write cell value)
  | slot, param :: rest, [], store =>
    match param.default with
    | some value =>
      .eval value closure.captured
        (.default closure frame slot param.name rest site :: stack) store
    | none => .raise (.missingArgument closure.name param.name) site store

/-- Calls a function. `site` is the call's span, which the call's own errors carry. -/
def call (closure : Closure) (args : List Value) (site : Option Span) (stack : List Waiting)
    (store : Store) : Step :=
  if closure.params.length < args.length then
    .raise (.tooManyArguments closure.name closure.params.length args.length) site store
  else
    let (frame, store) := store.openScope closure.frame (some closure.captured)
    bindParams closure frame site stack 0 closure.params args store

/-- Evaluates the arguments that are left, then calls. -/
def callArgs (closure : Closure) (done : List Value) (args : List Node) (scope : ScopeId)
    (span : Span) (stack : List Waiting) (store : Store) : Step :=
  match args with
  | [] => call closure done.reverse (some span) stack store
  | arg :: rest => .eval arg scope (.argument closure done rest scope span :: stack) store

/-- Makes a function. One with a name is bound to it, and, if the scope is the program's, is
entered into the table of global names too. -/
def define (name : String) (binding : Option VarRef) (params : List Param) (body : Node)
    (frame : Shape) (scope : ScopeId) (span : Span) (stack : List Waiting) (store : Store) :
    Step :=
  let function := Value.function
    { id := store.closures, name := name, params := params, body := body, frame := frame,
      captured := scope, span := span }
  let store := { store with closures := store.closures + 1 }
  match binding with
  | none => .value function stack store
  | some var =>
    match store.cell? scope var.place name with
    | none => .raise (.impossible .badAddress) (some span) store
    | some cell =>
      let store := store.write cell function
      if store.kindOf scope = some .program then
        .value function stack (store.publish name function)
      else .value function stack store

/-! ## Control -/

/-- Starts a round of a loop. -/
def loopEnter (loop : Loop) (last : Value) (stack : List Waiting) (store : Store) : Step :=
  let (scope, store) := store.openScope loop.bodyShape (some loop.header)
  .eval loop.body scope (.loopBody loop last :: stack) store

/-- Tests whether a loop has another round. -/
def loopRound (loop : Loop) (last : Value) (stack : List Waiting) (store : Store) : Step :=
  match loop.cond with
  | some cond => .eval cond loop.header (.loopCond loop last cond.span :: stack) store
  | none => loopEnter loop last stack store

/-- Goes on after a round of a loop. -/
def loopNext (loop : Loop) (last : Value) (stack : List Waiting) (store : Store) : Step :=
  match loop.step with
  | some step => .eval step loop.header (.loopStep loop last :: stack) store
  | none => loopRound loop last stack store

/-- Goes on with a truth value; any other value is an error at `span`. -/
def withTruth (value : Value) (span : Span) (store : Store) (go : Bool → Step) : Step :=
  match value with
  | .bool b => go b
  | value => .raise (.typeMismatch .bool value.type) (some span) store

/-- Takes the branch that a condition chooses, in a scope of its own. -/
def takeBranch (test : Bool) (yes : Node) (no : Option Node) (yesShape noShape : Shape)
    (scope : ScopeId) (stack : List Waiting) (store : Store) : Step :=
  match test, no with
  | true, _ =>
    let (inner, store) := store.openScope yesShape (some scope)
    .eval yes inner stack store
  | false, some no =>
    let (inner, store) := store.openScope noShape (some scope)
    .eval no inner stack store
  | false, none => .value .null stack store

/-- Runs the statements of a block that are left; `last` is the value of the one before. -/
def runBlock (last : Value) (statements : List Node) (scope : ScopeId) (stack : List Waiting)
    (store : Store) : Step :=
  match statements with
  | [] => .value last stack store
  | statement :: rest => .eval statement scope (.block rest scope :: stack) store

/-! ## Variables -/

/-- Delivers the value of a variable. -/
def readVar (name : String) (place : Place) (scope : ScopeId) (span : Span)
    (stack : List Waiting) (store : Store) : Step :=
  match store.lookup scope place name with
  | .ok value => .value value stack store
  | .error e => .raise (e.fault name) (some span) store

/-- Assigns a value to a variable and delivers it. -/
def writeVar (name : String) (place : Place) (value : Value) (scope : ScopeId) (span : Span)
    (stack : List Waiting) (store : Store) : Step :=
  match store.cell? scope place name with
  | some cell => .value value stack (store.write cell value)
  | none => .raise (.impossible .badAddress) (some span) store

/-- Assigns what an operator makes of a variable's value and another one. -/
def updateVar (name : String) (place : Place) (op : BinaryOp) (value : Value)
    (scope : ScopeId) (span : Span) (stack : List Waiting) (store : Store) : Step :=
  match store.lookup scope place name with
  | .error e => .raise (e.fault name) (some span) store
  | .ok current =>
    match applyBinary current value op with
    | .error fault => .raise fault (some span) store
    | .ok value => writeVar name place value scope span stack store

/-! ## Steps -/

/-- Starts the evaluation of a node. -/
def start (node : Node) (scope : ScopeId) (stack : List Waiting) (store : Store) : Step :=
  match node with
  | .int n _ => .value (.int n) stack store
  | .float bits _ => .value (.float (Float.ofBits bits)) stack store
  | .bool b _ => .value (.bool b) stack store
  | .str text _ => .value (.str text) stack store
  | .null _ => .value .null stack store
  | .ident name var span => readVar name var.place scope span stack store
  | .unary op operand span => .eval operand scope (.unary op span :: stack) store
  | .binary op left right span =>
    if op.isShortCircuit then
      .eval left scope (.logicalLeft op left.span right scope :: stack) store
    else .eval left scope (.left op right scope span :: stack) store
  | .assign target var _ op value span =>
    .eval value scope (.assign target var.place op scope span :: stack) store
  | .branch cond yes no yesShape noShape _ =>
    .eval cond scope (.branch cond.span yes no yesShape noShape scope :: stack) store
  | .whileLoop cond body header bodyShape _ =>
    let (inner, store) := store.openScope header (some scope)
    loopRound ⟨some cond, none, body, bodyShape, inner⟩ .null stack store
  | .forLoop init cond step body header bodyShape _ =>
    let (inner, store) := store.openScope header (some scope)
    let loop : Loop := ⟨cond, step, body, bodyShape, inner⟩
    match init with
    | some init => .eval init inner (.loopInit loop :: stack) store
    | none => loopRound loop .null stack store
  | .define name binding params body frame span =>
    define name binding params body frame scope span stack store
  | .call callee args span =>
    .eval callee scope (.callee callee.span args scope span :: stack) store
  | .block body _ => runBlock .null body scope stack store
  | .breakLoop _ => .deliver .breakLoop stack store
  | .continueLoop _ => .deliver .continueLoop stack store
  | .ret none _ => .deliver (.ret .null) stack store
  | .ret (some value) _ => .eval value scope (.ret :: stack) store

/-- Hands a value to what waits for it. -/
def resume (waiting : Waiting) (value : Value) (stack : List Waiting) (store : Store) : Step :=
  match waiting with
  | .unary op span => .result (applyUnary op value) span stack store
  | .left op right scope span => .eval right scope (.right op value span :: stack) store
  | .right op left span => .result (applyBinary left value op) span stack store
  | .logicalLeft op leftSpan right scope =>
    withTruth value leftSpan store fun b =>
      if b = (op == .or) then .value (.bool b) stack store
      else .eval right scope (.logicalRight right.span :: stack) store
  | .logicalRight rightSpan =>
    withTruth value rightSpan store fun b => .value (.bool b) stack store
  | .assign target place none scope span => writeVar target place value scope span stack store
  | .assign target place (some op) scope span =>
    updateVar target place op value scope span stack store
  | .branch condSpan yes no yesShape noShape scope =>
    withTruth value condSpan store fun b =>
      takeBranch b yes no yesShape noShape scope stack store
  | .loopInit loop => loopRound loop .null stack store
  | .loopCond loop last condSpan =>
    withTruth value condSpan store fun b =>
      if b then loopEnter loop last stack store else .value last stack store
  | .loopBody loop _ => loopNext loop value stack store
  | .loopStep loop last => loopRound loop last stack store
  | .callee calleeSpan args scope span =>
    match value with
    | .function closure => callArgs closure [] args scope span stack store
    | value => .raise (.notCallable value.type) (some calleeSpan) store
  | .argument closure done rest scope span =>
    callArgs closure (value :: done) rest scope span stack store
  | .default closure frame slot name rest site =>
    match store.cell? frame (.slot 0 slot .var) name with
    | none => .raise (.impossible .badAddress) site store
    | some cell => bindParams closure frame site stack (slot + 1) rest [] (store.write cell value)
  | .body _ => .value value stack store
  | .block rest scope => runBlock value rest scope stack store
  | .ret => .deliver (.ret value) stack store

/-- Hands on a flow that leaves a loop or a function. A loop's body is where it stops if it
leaves the loop, a call's body or default where it stops if it leaves the function. -/
def unwind (waiting : Waiting) (flow : Flow) (stack : List Waiting) (store : Store) : Step :=
  match waiting, flow with
  | .loopBody _ last, .breakLoop => .value last stack store
  | .loopBody loop last, .continueLoop => loopNext loop last stack store
  | .body _, .ret value => .value value stack store
  | .body site, .breakLoop | .body site, .continueLoop =>
    .raise (.impossible .loopControlInBody) site store
  | .default closure frame slot name rest site, .ret value =>
    resume (.default closure frame slot name rest site) value stack store
  | .default _ _ _ _ _ site, .breakLoop | .default _ _ _ _ _ site, .continueLoop =>
    .raise (.impossible .loopControlInDefault) site store
  | _, flow => .deliver flow stack store

/-- One step. -/
def step (m : Machine) : Step :=
  match m.control, m.stack with
  | .eval node scope, stack => start node scope stack m.store
  | .deliver flow, [] => .done flow m.store
  | .deliver (.normal value), waiting :: stack => resume waiting value stack m.store
  | .deliver flow, waiting :: stack => unwind waiting flow stack m.store

end Machine

end SlotScript
