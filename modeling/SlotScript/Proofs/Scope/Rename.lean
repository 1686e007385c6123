import SlotScript.Scope.Resolve
import SlotScript.Proofs.Result

/-!
# Renaming a program

A renaming gives every variable, target, parameter and function another name. It leaves texts alone,
although they are strings like names, and it leaves places and shapes as they are.

**Theorem (`Program.resolve_rename`).** If no two names become one, the renamed program is resolved to
the renamed result: every occurrence gets the same place, every scope the same shape, and an error is
the same error about the renamed constant.

The resolver looks at names in one way only: it compares the one at hand with those that the open
scopes have declared (`Place.find_rename`).
-/

namespace SlotScript

/-! ## Renaming trees -/

mutual

/-- The node with its names changed. -/
def Node.rename (f : String → String) : Node → Node
  | .int value span => .int value span
  | .float bits span => .float bits span
  | .bool value span => .bool value span
  | .str text span => .str text span
  | .null span => .null span
  | .ident name var span => .ident (f name) var span
  | .unary op operand span => .unary op (operand.rename f) span
  | .binary op left right span => .binary op (left.rename f) (right.rename f) span
  | .assign target var decl op value span => .assign (f target) var decl op (value.rename f) span
  | .branch cond yes no yesShape noShape span =>
    .branch (cond.rename f) (yes.rename f) (renameOption f no) yesShape noShape span
  | .whileLoop cond body header bodyShape span =>
    .whileLoop (cond.rename f) (body.rename f) header bodyShape span
  | .forLoop init cond step body header bodyShape span =>
    .forLoop (renameOption f init) (renameOption f cond) (renameOption f step) (body.rename f) header
      bodyShape span
  | .define name binding params body frame span =>
    .define (f name) binding (renameParams f params) (body.rename f) frame span
  | .call callee args span => .call (callee.rename f) (renameNodes f args) span
  | .block body span => .block (renameNodes f body) span
  | .breakLoop span => .breakLoop span
  | .continueLoop span => .continueLoop span
  | .ret value span => .ret (renameOption f value) span

/-- A part that may be missing, with its names changed. -/
def renameOption (f : String → String) : Option Node → Option Node
  | none => none
  | some node => some (node.rename f)

/-- The nodes with their names changed. -/
def renameNodes (f : String → String) : List Node → List Node
  | [] => []
  | node :: rest => node.rename f :: renameNodes f rest

/-- The parameters with their names changed. -/
def renameParams (f : String → String) : List Param → List Param
  | [] => []
  | .mk name value span :: rest => .mk (f name) (renameOption f value) span :: renameParams f rest

end

/-- The program with its names changed. -/
def Program.rename (f : String → String) (program : Program) : Program :=
  { program with body := renameNodes f program.body }

/-- The parameter with its names changed. -/
def Param.rename (f : String → String) : Param → Param
  | .mk name value span => .mk (f name) (renameOption f value) span

section Lists

variable (f : String → String)

theorem renameParams_eq_map (params : List Param) :
    renameParams f params = params.map (Param.rename f) := by
  induction params with
  | nil => rfl
  | cons param rest ih =>
    obtain ⟨name, value, span⟩ := param
    rw [renameParams, ih]
    rfl

theorem Param.name_rename (param : Param) : (param.rename f).name = f param.name := by
  cases param
  rfl

theorem names_renameParams (params : List Param) :
    (renameParams f params).map Param.name = (params.map Param.name).map f := by
  rw [renameParams_eq_map, List.map_map, List.map_map]
  exact List.map_congr_left fun param _ => Param.name_rename f param

end Lists

/-! ## Renaming scopes and errors -/

/-- The scope with the names that it has declared changed. -/
def Context.rename (f : String → String) (c : Context) : Context :=
  { c with names := c.names.map fun (name, slot) => (f name, slot) }

/-- The fault with the name in it changed. -/
def ScopeFault.rename (f : String → String) : ScopeFault → ScopeFault
  | .strayBreak => .strayBreak
  | .strayContinue => .strayContinue
  | .constantAssigned name => .constantAssigned (f name)

/-- The error with the name in it changed. -/
def ScopeError.rename (f : String → String) (e : ScopeError) : ScopeError :=
  ⟨e.fault.rename f, e.span⟩

/-- A result with its names changed; `g` changes those of what was asked for. -/
def renamed {α β : Type} (f : String → String) (g : α → β) :
    Except ScopeError α → Except ScopeError β
  | .ok a => .ok (g a)
  | .error e => .error (e.rename f)

/-- Steps that rename their results make up a step that does. -/
theorem renamed_bind {α α' β β' : Type} {f : String → String} {g : α → α'} {g' : β → β'}
    {x : Except ScopeError α} {x' : Except ScopeError α'} {next : α → Except ScopeError β}
    {next' : α' → Except ScopeError β'} (hx : x' = renamed f g x)
    (h : ∀ a, next' (g a) = renamed f g' (next a)) :
    (x' >>= next') = renamed f g' (x >>= next) := by
  subst hx
  cases x with
  | ok a => exact h a
  | error e => rfl

/-- A node and the scope after it, with their names changed. -/
def renameBoth {α : Type} (f : String → String) (g : α → α) (both : α × Context) : α × Context :=
  (g both.1, both.2.rename f)

/-- Entries of a table are found under their new names. -/
theorem lookup_rename {α β : Type} {f : String → String} (hf : Function.Injective f) (g : α → β)
    (entries : List (String × α)) (name : String) :
    (entries.map fun (key, a) => (f key, g a)).lookup (f name) = (entries.lookup name).map g := by
  induction entries with
  | nil => rfl
  | cons entry rest ih =>
    obtain ⟨key, a⟩ := entry
    rw [List.map_cons, List.lookup_cons, List.lookup_cons]
    by_cases h : name = key
    · rw [h, beq_self_eq_true, beq_self_eq_true]
      rfl
    · rw [beq_false_of_ne h, beq_false_of_ne fun heq => h (hf heq)]
      exact ih

variable {f : String → String}

theorem Context.declareAll_rename (c : Context) (names : List String) :
    (c.rename f).declareAll (names.map f) = (c.declareAll names).rename f := by
  induction names generalizing c with
  | nil => rfl
  | cons name rest ih => exact ih (c.declare name .var).2

/-- The scope of a call declares the renamed parameters. -/
theorem Context.frame_rename (params : List Param) :
    (Context.fresh .function).declareAll ((renameParams f params).map Param.name) =
      ((Context.fresh .function).declareAll (params.map Param.name)).rename f := by
  rw [names_renameParams]
  exact Context.declareAll_rename (.fresh .function) (params.map Param.name)

section Injective

variable (hf : Function.Injective f)

include hf

theorem Context.find?_rename (c : Context) (name : String) :
    (c.rename f).find? (f name) = c.find? name := by
  have h := lookup_rename hf id c.names name
  rw [Option.map_id_fun, id] at h
  exact h

theorem Place.findFrom_rename (name : String) (distance : Nat) (contexts : List Context) :
    Place.findFrom (f name) distance (contexts.map (Context.rename f)) =
      Place.findFrom name distance contexts := by
  induction contexts generalizing distance with
  | nil => rfl
  | cons c outer ih =>
    rw [List.map_cons, Place.findFrom, Place.findFrom, c.find?_rename hf]
    cases c.find? name with
    | none => exact ih (distance + 1)
    | some found => rfl

/-- A name is found where it was under its old name. -/
theorem Place.find_rename (name : String) (contexts : List Context) :
    Place.find (f name) (contexts.map (Context.rename f)) = Place.find name contexts :=
  Place.findFrom_rename hf name 0 contexts

theorem resolveTarget_rename (outer : List Context) (here : Context) (target : String)
    (op : Option BinaryOp) (span : Span) :
    resolveTarget (outer.map (Context.rename f)) (here.rename f) (f target) op span =
      renamed f (renameBoth f id) (resolveTarget outer here target op span) := by
  have hfind := Place.find_rename hf target (here :: outer)
  rw [List.map_cons] at hfind
  unfold resolveTarget
  rw [hfind]
  split <;> rfl

end Injective

/-! ## The resolver -/

mutual

/-- **The renamed node is resolved to the renamed result.** -/
theorem Node.resolve_rename (hf : Function.Injective f) (inLoop : Bool) (outer : List Context) (here : Context) :
    ∀ node : Node, (node.rename f).resolve inLoop (outer.map (Context.rename f)) (here.rename f) =
      renamed f (renameBoth f (Node.rename f)) (node.resolve inLoop outer here)
  | .int .. | .float .. | .bool .. | .str .. | .null .. => rfl
  | .ident name var span => by
    have hfind := Place.find_rename hf name (here :: outer)
    rw [List.map_cons] at hfind
    rw [Node.rename, Node.resolve, hfind]
    rfl
  | .unary op operand span =>
    renamed_bind (operand.resolve_rename hf inLoop outer here) fun _ => rfl
  | .binary op left right span =>
    renamed_bind (left.resolve_rename hf inLoop outer here) fun (_, here) =>
      renamed_bind (right.resolve_rename hf inLoop outer here) fun _ => rfl
  | .assign target _ .var op value span =>
    renamed_bind (value.resolve_rename hf inLoop outer (here.declare target .var).2) fun _ => rfl
  | .assign target _ .const op value span =>
    renamed_bind (value.resolve_rename hf inLoop outer (here.declare target .const).2) fun _ => rfl
  | .assign target _ .plain op value span =>
    renamed_bind (value.resolve_rename hf inLoop outer here) fun (_, here) =>
      renamed_bind (resolveTarget_rename hf outer here target op span) fun _ => rfl
  | .branch cond yes no _ _ span =>
    renamed_bind (cond.resolve_rename hf inLoop outer here) fun (_, here) =>
      renamed_bind (yes.resolve_rename hf inLoop (here :: outer) (.fresh .body)) fun _ =>
        renamed_bind (resolveOption_rename hf inLoop (here :: outer) (.fresh .body) no) fun _ => rfl
  | .whileLoop cond body _ _ span =>
    renamed_bind (cond.resolve_rename hf inLoop (here :: outer) (.fresh .header)) fun (_, header) =>
      renamed_bind (body.resolve_rename hf true (header :: here :: outer) (.fresh .body)) fun _ => rfl
  | .forLoop init cond step body _ _ span =>
    renamed_bind (resolveOption_rename hf inLoop (here :: outer) (.fresh .header) init)
      fun (_, header) =>
    renamed_bind (resolveOption_rename hf inLoop (here :: outer) header cond) fun (_, header) =>
    renamed_bind (resolveOption_rename hf inLoop (here :: outer) header step) fun (_, header) =>
    renamed_bind (body.resolve_rename hf true (header :: here :: outer) (.fresh .body)) fun _ => rfl
  | .define name (some _) params body _ span =>
    renamed_bind (resolveParams_rename hf inLoop outer (here.declare name .var).2 params)
      fun (params, here) =>
    renamed_bind ((congrArg (Node.resolve false _ · _) (Context.frame_rename params)).trans
      (body.resolve_rename hf false (here :: outer) _)) fun _ => rfl
  | .define name none params body _ span =>
    renamed_bind (resolveParams_rename hf inLoop outer here params) fun (params, here) =>
    renamed_bind ((congrArg (Node.resolve false _ · _) (Context.frame_rename params)).trans
      (body.resolve_rename hf false (here :: outer) _)) fun _ => rfl
  | .call callee args span =>
    renamed_bind (callee.resolve_rename hf inLoop outer here) fun (_, here) =>
      renamed_bind (resolveAll_rename hf inLoop outer here args) fun _ => rfl
  | .block body span => renamed_bind (resolveAll_rename hf inLoop outer here body) fun _ => rfl
  | .breakLoop span | .continueLoop span => by
    rw [Node.rename, Node.resolve, Node.resolve]
    split <;> rfl
  | .ret value span => renamed_bind (resolveOption_rename hf inLoop outer here value) fun _ => rfl

theorem resolveOption_rename (hf : Function.Injective f) (inLoop : Bool) (outer : List Context) (here : Context) :
    ∀ node : Option Node,
      resolveOption inLoop (outer.map (Context.rename f)) (here.rename f) (renameOption f node) =
        renamed f (renameBoth f (renameOption f)) (resolveOption inLoop outer here node)
  | none => rfl
  | some node => renamed_bind (node.resolve_rename hf inLoop outer here) fun _ => rfl

theorem resolveAll_rename (hf : Function.Injective f) (inLoop : Bool) (outer : List Context) (here : Context) :
    ∀ nodes : List Node,
      resolveAll inLoop (outer.map (Context.rename f)) (here.rename f) (renameNodes f nodes) =
        renamed f (renameBoth f (renameNodes f)) (resolveAll inLoop outer here nodes)
  | [] => rfl
  | node :: rest =>
    renamed_bind (node.resolve_rename hf inLoop outer here) fun (_, here) =>
      renamed_bind (resolveAll_rename hf inLoop outer here rest) fun _ => rfl

theorem resolveParams_rename (hf : Function.Injective f) (inLoop : Bool) (outer : List Context) (here : Context) :
    ∀ params : List Param,
      resolveParams inLoop (outer.map (Context.rename f)) (here.rename f) (renameParams f params) =
        renamed f (renameBoth f (renameParams f)) (resolveParams inLoop outer here params)
  | [] => rfl
  | .mk _ value _ :: rest =>
    renamed_bind (resolveOption_rename hf inLoop outer here value) fun (_, here) =>
      renamed_bind (resolveParams_rename hf inLoop outer here rest) fun _ => rfl

end

/-- **Resolving commutes with renaming.** -/
theorem Program.resolve_rename (hf : Function.Injective f) (program : Program) :
    (program.rename f).resolve = renamed f (Program.rename f) program.resolve :=
  renamed_bind (resolveAll_rename hf false [] (.fresh .program) program.body) fun _ => rfl

end SlotScript
