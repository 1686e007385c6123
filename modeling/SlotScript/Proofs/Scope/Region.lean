import SlotScript.Scope.Context
import SlotScript.Tree

/-!
# Regions: the scopes of a program as they stand in its text

A running program opens scopes; the text of the program has the *regions* they are opened for.
The program is a region, and so is every function body, loop header, branch and loop body. A
region is told by what opens it, by where its body stands, and by what it declares.

* `Node.declared` - the declarations that stand in a tree itself, not in the regions inside it.
* `Node.parts` - the nodes right below a node, each with the regions it is put into.
* `Program.Occurs` - a node stands somewhere in a program, inside these regions.
* `Program.Mentions` - a name stands for the variable at a place, inside these regions.

All of this is read off the resolved tree alone.
-/

namespace SlotScript

/-- A declared name with the slot it is given. -/
abbrev Declaration := String × SlotClass × Nat

/-- A region of a program. -/
structure Region where
  /-- What opens a scope for the region. -/
  kind : ScopeKind
  /-- Where the region's body stands. The program has no body apart from itself. -/
  span : Option Span
  /-- What is declared in the region, the latest first. -/
  declared : List Declaration
deriving DecidableEq, Repr

/-! ## Declarations -/

/-- What an occurrence of a name declares. -/
def VarRef.declared (name : String) : VarRef → List Declaration
  | ⟨.declare, .slot _ index slotClass⟩ => [(name, slotClass, index)]
  | _ => []

/-- The declarations of parameters whose slots start at `slot`. -/
def Param.slots (slot : Nat) : List Param → List Declaration
  | [] => []
  | param :: rest => Param.slots (slot + 1) rest ++ [(param.name, .var, slot)]

mutual

/-- The declarations that stand in a tree itself, the latest first. -/
def Node.declared : Node → List Declaration
  | .unary _ operand _ => operand.declared
  | .binary _ left right _ => right.declared ++ left.declared
  | .assign target var .plain _ value _ => var.declared target ++ value.declared
  | .assign target var .var _ value _ => value.declared ++ var.declared target
  | .assign target var .const _ value _ => value.declared ++ var.declared target
  | .branch cond _ _ _ _ _ => cond.declared
  | .define name binding params _ _ _ =>
    declaredParams params ++ (binding.elim [] (·.declared name))
  | .call callee args _ => declaredAll args ++ callee.declared
  | .block body _ => declaredAll body
  | .ret value _ => declaredOption value
  | _ => []

/-- The declarations of a part that may be missing. -/
def declaredOption : Option Node → List Declaration
  | none => []
  | some node => node.declared

/-- The declarations of nodes one after the other. -/
def declaredAll : List Node → List Declaration
  | [] => []
  | node :: rest => declaredAll rest ++ node.declared

/-- The declarations of the defaults of parameters. -/
def declaredParams : List Param → List Declaration
  | [] => []
  | .mk _ value _ :: rest => declaredParams rest ++ declaredOption value

end

namespace Region

/-- The region of a program. -/
def ofProgram (program : Program) : Region := ⟨.program, none, declaredAll program.body⟩

/-- The region of a function's body: it declares the parameters first. -/
def ofFunction (params : List Param) (body : Node) : Region :=
  ⟨.function, some body.span, body.declared ++ Param.slots 0 params⟩

/-- The region of a loop's header. -/
def ofHeader (init cond step : Option Node) (body : Node) : Region :=
  ⟨.header, some body.span, declaredOption step ++ (declaredOption cond ++ declaredOption init)⟩

/-- The region of a branch, or of a loop's body. -/
def ofBody (body : Node) : Region := ⟨.body, some body.span, body.declared⟩

end Region

/-- How many slots of a class a scope of the shape has. -/
def Shape.size (shape : Shape) : SlotClass → Nat
  | .var => shape.vars
  | .const => shape.consts

/-- A scope of the shape is made for the region: it is opened by what opens the region, and it
has one slot for every declaration. -/
structure Region.Fits (region : Region) (shape : Shape) : Prop where
  kind : shape.kind = region.kind
  slots : ∀ slotClass, ((region.declared.filter (·.2.1 = slotClass)).map (·.2.2)) =
    (List.range (shape.size slotClass)).reverse

/-! ## Occurrences -/

/-- The defaults of parameters. -/
def Param.defaults (params : List Param) : List Node := params.filterMap Param.default

/-- The nodes right below a node, each with the regions that it is put into, the innermost
first. -/
def Node.parts : Node → List (List Region × Node)
  | .unary _ operand _ => [([], operand)]
  | .binary _ left right _ => [([], left), ([], right)]
  | .assign _ _ _ _ value _ => [([], value)]
  | .branch cond yes no _ _ _ =>
    ([], cond) :: ([.ofBody yes], yes) :: no.toList.map fun no => ([.ofBody no], no)
  | .whileLoop cond body _ _ _ =>
    let header := Region.ofHeader none (some cond) none body
    [([header], cond), ([.ofBody body, header], body)]
  | .forLoop init cond step body _ _ _ =>
    let header := Region.ofHeader init cond step body
    ([.ofBody body, header], body) ::
      (init.toList ++ cond.toList ++ step.toList).map fun part => ([header], part)
  | .define _ _ params body _ _ =>
    ([.ofFunction params body], body) :: (Param.defaults params).map fun value => ([], value)
  | .call callee args _ => ([], callee) :: args.map fun arg => ([], arg)
  | .block body _ => body.map fun statement => ([], statement)
  | .ret value _ => value.toList.map fun value => ([], value)
  | _ => []

/-- A node stands in the program, inside the regions of the chain, the innermost first. -/
inductive Program.Occurs (program : Program) : List Region → Node → Prop
  | statement {node : Node} : node ∈ program.body → Occurs program [.ofProgram program] node
  | part {chain inner : List Region} {node sub : Node} :
      Occurs program chain node → (inner, sub) ∈ node.parts → Occurs program (inner ++ chain) sub

/-- Inside the regions of the chain, a name stands for the variable at a place: as a value, as
the target of an assignment, as the name of a function, or as a parameter. -/
inductive Program.Mentions (program : Program) : List Region → String → Place → Prop
  | value {chain : List Region} {name : String} {var : VarRef} {span : Span} :
      program.Occurs chain (.ident name var span) → Mentions program chain name var.place
  | target {chain : List Region} {name : String} {var : VarRef} {decl : DeclKind}
      {op : Option BinaryOp} {value : Node} {span : Span} :
      program.Occurs chain (.assign name var decl op value span) →
      Mentions program chain name var.place
  | function {chain : List Region} {name : String} {var : VarRef} {params : List Param}
      {body : Node} {frame : Shape} {span : Span} :
      program.Occurs chain (.define name (some var) params body frame span) →
      Mentions program chain name var.place
  | param {chain : List Region} {name : String} {binding : Option VarRef} {params : List Param}
      {body : Node} {frame : Shape} {span : Span} {slot : Nat} {param : Param} :
      program.Occurs chain (.define name binding params body frame span) →
      params[slot]? = some param →
      Mentions program (.ofFunction params body :: chain) param.name (.slot 0 slot .var)

/-- Seen from inside the chain, the place is a slot that one of its regions declares for the
name, or it is the table of global names. -/
def Place.Within (chain : List Region) (name : String) : Place → Prop
  | .unresolved => False
  | .global => True
  | .slot distance index slotClass =>
    ∃ region, chain[distance]? = some region ∧ (name, slotClass, index) ∈ region.declared

end SlotScript
