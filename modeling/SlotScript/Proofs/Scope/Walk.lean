import SlotScript.Tree
import SlotScript.Scope.Resolve

/-!
# Lexical scoping, told as a walk

A program is walked from its start to its end, and what matters to scoping on the way is a list of
*events*: scopes are opened and closed, names are declared, used and assigned, and loops are left.
The events are read off the tree alone, in the order in which it is walked:

* a declared name comes before its initialiser, a plain target after its value,
* the name of a function comes before the defaults of its parameters, and the parameters before
  its body,
* all parts of a loop's header come before its body.

Scopes are opened by the program, by the body of a function, by the header of a loop, by a branch
and by the body of a loop; a missing `else` branch counts as an empty one. The scopes that are open
at an event, with what has been declared in them so far, say everything about it: what a name
denotes (`Denotes`), whether the event is forbidden (`Event.Violates`), and what it leaves in the
tree (`Event.Leaves`).
-/

namespace SlotScript

/-! ## Open scopes -/

/-- What opens a scope in a program. -/
inductive Opening where
  | program | function | header | branch | loopBody
deriving DecidableEq, Repr

/-- The kind of scope that is opened. -/
def Opening.kind : Opening → ScopeKind
  | program => .program
  | function => .function
  | header => .header
  | branch | loopBody => .body

/-- A scope that is open. -/
structure OpenScope where
  /-- What opened it. -/
  opening : Opening
  /-- The declarations in it so far, the latest first. -/
  declared : List (String × SlotClass) := []

namespace OpenScope

/-- How many of the declarations have the class: the slot that the next one takes. -/
def slots (slotClass : SlotClass) (declared : List (String × SlotClass)) : Nat :=
  declared.countP (·.2 = slotClass)

/-- The scope with one more declaration. -/
def declare (scope : OpenScope) (name : String) (slotClass : SlotClass) : OpenScope :=
  { scope with declared := (name, slotClass) :: scope.declared }

/-- Whether the name has been declared in the scope. -/
def declares (scope : OpenScope) (name : String) : Bool := scope.declared.any (·.1 = name)

/-- The size of the scope. -/
def shape (scope : OpenScope) : Shape :=
  ⟨scope.opening.kind, slots .var scope.declared, slots .const scope.declared⟩

end OpenScope

/-- The open scopes, the innermost first. -/
abbrev Scopes := List OpenScope

namespace Scopes

/-- A declaration in the innermost scope. -/
def declare (name : String) (slotClass : SlotClass) : Scopes → Scopes
  | [] => []
  | scope :: outer => scope.declare name slotClass :: outer

/-- The place of the next declaration of a class in the innermost scope. -/
def next (slotClass : SlotClass) : Scopes → Place
  | [] => .unresolved
  | scope :: _ => .slot 0 (OpenScope.slots slotClass scope.declared) slotClass

/-- What stands in these scopes stands in the body of a loop of its own function. -/
def InLoopBody (scopes : Scopes) : Prop :=
  ∃ inner scope outer, scopes = inner ++ scope :: outer ∧ scope.opening = .loopBody ∧
    ∀ s ∈ inner, s.opening ≠ .function

end Scopes

/-- The name denotes the most recent declaration of it in the nearest scope that has one. Its slot
counts the declarations of its class before it in that scope. A name that no scope has declared is
global. -/
inductive Denotes (name : String) : Scopes → Place → Prop
  | here {scope : OpenScope} {outer : Scopes} {slotClass : SlotClass}
      {later earlier : List (String × SlotClass)} :
    scope.declared = later ++ (name, slotClass) :: earlier → (∀ d ∈ later, d.1 ≠ name) →
    Denotes name (scope :: outer) (.slot 0 (OpenScope.slots slotClass earlier) slotClass)
  | further {scope : OpenScope} {outer : Scopes} {distance index : Nat} {slotClass : SlotClass} :
    (∀ d ∈ scope.declared, d.1 ≠ name) → Denotes name outer (.slot distance index slotClass) →
    Denotes name (scope :: outer) (.slot (distance + 1) index slotClass)
  | global {scopes : Scopes} :
    (∀ scope ∈ scopes, ∀ d ∈ scope.declared, d.1 ≠ name) → Denotes name scopes .global

/-! ## Events -/

/-- What happens on the walk. -/
inductive Event where
  /-- A scope is opened. -/
  | enter (opening : Opening)
  /-- The innermost scope is closed. -/
  | leave
  /-- A name is declared by a keyword. -/
  | declare (name : String) (slotClass : SlotClass)
  /-- A parameter is declared. -/
  | parameter (name : String)
  /-- A name is used. -/
  | use (name : String)
  /-- A name is assigned without a keyword; `compound` if by an operator on its old value. -/
  | assign (name : String) (compound : Bool) (span : Span)
  /-- A loop is left or its next round begun; `fault` is what is wrong with that outside a loop. -/
  | jump (fault : ScopeFault) (span : Span)

/-- What the walk of a program finds in the resolved tree. -/
inductive Mark where
  /-- The place of an occurrence. -/
  | place (var : VarRef)
  /-- The shape of a scope. -/
  | shape (shape : Shape)

namespace Event

/-- The open scopes after the event. A name that is assigned plainly is declared if no scope has
it. -/
def next (scopes : Scopes) : Event → Scopes
  | enter opening => ⟨opening, []⟩ :: scopes
  | leave => scopes.tail
  | declare name slotClass => scopes.declare name slotClass
  | parameter name => scopes.declare name .var
  | assign name compound _ =>
    if compound || scopes.any (·.declares name) then scopes else scopes.declare name .var
  | use _ | jump .. => scopes

/-- The event is forbidden in these scopes, with this error. -/
def Violates (scopes : Scopes) (e : ScopeError) : Event → Prop
  | jump fault span => ¬ scopes.InLoopBody ∧ e = ⟨fault, span⟩
  | assign name _ span =>
    (∃ distance index, Denotes name scopes (.slot distance index .const)) ∧
      e = ⟨.constantAssigned name, span⟩
  | _ => False

/-- What the event leaves in the tree in these scopes. -/
def Leaves (scopes : Scopes) (marks : List Mark) : Event → Prop
  | leave => ∃ scope outer, scopes = scope :: outer ∧ marks = [.shape scope.shape]
  | declare _ slotClass => marks = [.place ⟨.declare, scopes.next slotClass⟩]
  | use name => ∃ place, Denotes name scopes place ∧ marks = [.place ⟨.reference, place⟩]
  | assign name compound _ =>
    ∃ place, Denotes name scopes place ∧
      marks = [.place (if place = .global ∧ compound = false then ⟨.declare, scopes.next .var⟩
        else ⟨.reference, place⟩)]
  | enter _ | parameter _ | jump .. => marks = []

end Event

/-- The open scopes after events. -/
def Scopes.after (scopes : Scopes) (events : List Event) : Scopes :=
  events.foldl Event.next scopes

/-- None of the events is forbidden where it stands. -/
def Lawful (scopes : Scopes) (events : List Event) : Prop :=
  ∀ before event rest, events = before ++ event :: rest →
    ∀ e, ¬ event.Violates (scopes.after before) e

/-- The first of the events that is forbidden has this error. -/
def FirstViolation (scopes : Scopes) (events : List Event) (e : ScopeError) : Prop :=
  ∃ before event rest, events = before ++ event :: rest ∧ Lawful scopes before ∧
    event.Violates (scopes.after before) e

/-- The events leave these marks, in their order. -/
inductive Marked : Scopes → List Event → List Mark → Prop
  | nil {scopes : Scopes} : Marked scopes [] []
  | cons {scopes : Scopes} {event : Event} {events : List Event} {here rest : List Mark} :
    event.Leaves scopes here → Marked (event.next scopes) events rest →
    Marked scopes (event :: events) (here ++ rest)

/-! ## Events and marks of a tree -/

mutual

/-- The events of walking a node. -/
def Node.events : Node → List Event
  | .ident name _ _ => [.use name]
  | .unary _ operand _ => operand.events
  | .binary _ left right _ => left.events ++ right.events
  | .assign target _ .var _ value _ => .declare target .var :: value.events
  | .assign target _ .const _ value _ => .declare target .const :: value.events
  | .assign target _ .plain op value span => value.events ++ [.assign target op.isSome span]
  | .branch cond yes no _ _ _ =>
    cond.events ++ (.enter .branch :: (yes.events ++ (.leave ::
      .enter .branch :: (optionEvents no ++ [.leave]))))
  | .whileLoop cond body _ _ _ =>
    .enter .header :: (cond.events ++ (.enter .loopBody :: (body.events ++ [.leave, .leave])))
  | .forLoop init cond step body _ _ _ =>
    .enter .header :: (optionEvents init ++ (optionEvents cond ++ (optionEvents step ++
      (.enter .loopBody :: (body.events ++ [.leave, .leave])))))
  | .define name (some _) params body _ _ =>
    .declare name .var :: (defaultEvents params ++ (.enter .function ::
      (params.map (.parameter ·.name) ++ (body.events ++ [.leave]))))
  | .define _ none params body _ _ =>
    defaultEvents params ++ (.enter .function ::
      (params.map (.parameter ·.name) ++ (body.events ++ [.leave])))
  | .call callee args _ => callee.events ++ listEvents args
  | .block body _ => listEvents body
  | .breakLoop span => [.jump .strayBreak span]
  | .continueLoop span => [.jump .strayContinue span]
  | .ret value _ => optionEvents value
  | .int .. | .float .. | .bool .. | .str .. | .null .. => []

/-- The events of a part that may be missing. -/
def optionEvents : Option Node → List Event
  | none => []
  | some node => node.events

/-- The events of nodes one after the other. -/
def listEvents : List Node → List Event
  | [] => []
  | node :: rest => node.events ++ listEvents rest

/-- The events of the defaults of parameters. -/
def defaultEvents : List Param → List Event
  | [] => []
  | .mk _ default _ :: rest => optionEvents default ++ defaultEvents rest

end

/-- The events of walking a program. -/
def Program.events (program : Program) : List Event :=
  .enter .program :: (listEvents program.body ++ [.leave])

mutual

/-- The places and shapes in a tree, in the order of the walk. -/
def Node.marks : Node → List Mark
  | .ident _ var _ => [.place var]
  | .unary _ operand _ => operand.marks
  | .binary _ left right _ => left.marks ++ right.marks
  | .assign _ var .var _ value _ => .place var :: value.marks
  | .assign _ var .const _ value _ => .place var :: value.marks
  | .assign _ var .plain _ value _ => value.marks ++ [.place var]
  | .branch cond yes no yesShape noShape _ =>
    cond.marks ++ (yes.marks ++ (.shape yesShape :: (optionMarks no ++ [.shape noShape])))
  | .whileLoop cond body header bodyShape _ =>
    cond.marks ++ (body.marks ++ [.shape bodyShape, .shape header])
  | .forLoop init cond step body header bodyShape _ =>
    optionMarks init ++ (optionMarks cond ++ (optionMarks step ++
      (body.marks ++ [.shape bodyShape, .shape header])))
  | .define _ (some var) params body frame _ =>
    .place var :: (defaultMarks params ++ (body.marks ++ [.shape frame]))
  | .define _ none params body frame _ => defaultMarks params ++ (body.marks ++ [.shape frame])
  | .call callee args _ => callee.marks ++ listMarks args
  | .block body _ => listMarks body
  | .ret value _ => optionMarks value
  | .int .. | .float .. | .bool .. | .str .. | .null .. | .breakLoop .. | .continueLoop .. => []

/-- The marks of a part that may be missing. -/
def optionMarks : Option Node → List Mark
  | none => []
  | some node => node.marks

/-- The marks of nodes one after the other. -/
def listMarks : List Node → List Mark
  | [] => []
  | node :: rest => node.marks ++ listMarks rest

/-- The marks of the defaults of parameters. -/
def defaultMarks : List Param → List Mark
  | [] => []
  | .mk _ default _ :: rest => optionMarks default ++ defaultMarks rest

end

/-- The places and shapes in a program. -/
def Program.marks (program : Program) : List Mark :=
  listMarks program.body ++ [.shape program.shape]

mutual

/-- The node without its places and shapes. -/
def Node.unmarked : Node → Node
  | .ident name _ span => .ident name .unresolved span
  | .unary op operand span => .unary op operand.unmarked span
  | .binary op left right span => .binary op left.unmarked right.unmarked span
  | .assign target _ decl op value span => .assign target .unresolved decl op value.unmarked span
  | .branch cond yes no _ _ span =>
    .branch cond.unmarked yes.unmarked (unmarkedOption no) .blank .blank span
  | .whileLoop cond body _ _ span => .whileLoop cond.unmarked body.unmarked .blank .blank span
  | .forLoop init cond step body _ _ span =>
    .forLoop (unmarkedOption init) (unmarkedOption cond) (unmarkedOption step) body.unmarked .blank
      .blank span
  | .define name binding params body _ span =>
    .define name (binding.map fun _ => .unresolved) (unmarkedParams params) body.unmarked .blank
      span
  | .call callee args span => .call callee.unmarked (unmarkedNodes args) span
  | .block body span => .block (unmarkedNodes body) span
  | .ret value span => .ret (unmarkedOption value) span
  | .int value span => .int value span
  | .float bits span => .float bits span
  | .bool value span => .bool value span
  | .str text span => .str text span
  | .null span => .null span
  | .breakLoop span => .breakLoop span
  | .continueLoop span => .continueLoop span

/-- The part without its places and shapes. -/
def unmarkedOption : Option Node → Option Node
  | none => none
  | some node => some node.unmarked

/-- The nodes without their places and shapes. -/
def unmarkedNodes : List Node → List Node
  | [] => []
  | node :: rest => node.unmarked :: unmarkedNodes rest

/-- The parameters without the places and shapes in their defaults. -/
def unmarkedParams : List Param → List Param
  | [] => []
  | .mk name default span :: rest => .mk name (unmarkedOption default) span :: unmarkedParams rest

end

/-- The program without its places and shapes. -/
def Program.unmarked (program : Program) : Program :=
  { body := unmarkedNodes program.body }

end SlotScript
