import SlotScript.Proofs.Result
import SlotScript.Proofs.Scope.Walk
import SlotScript.Proofs.Tree.Bare

/-!
# Resolving names looks at no span and at no mark

The resolver carries spans along and writes over the places and shapes that it finds. So it gives the
same result for every program with the same *skeleton*, the program without spans, places and shapes.

**Theorem (`Program.resolve_skeleton`).** The resolved program without its spans is the skeleton,
resolved.
-/

namespace SlotScript

/-- The program without its spans, places and shapes. -/
def Program.skeleton (program : Program) : Program := program.bare.unmarked

/-- The error without its span. -/
def ScopeError.bare (e : ScopeError) : ScopeError := ⟨e.fault, .nowhere⟩

/-- The result of the resolver without spans; `f` erases those of what was asked for. -/
def bared {α : Type} (f : α → α) : Except ScopeError α → Except ScopeError α
  | .ok a => .ok (f a)
  | .error e => .error e.bare

/-- Steps that keep to the skeleton make up a step that does. -/
theorem bared_bind {α β : Type} {f : α → α} {g : β → β} {x x' : Except ScopeError α}
    {next next' : α → Except ScopeError β} (hx : x' = bared f x)
    (h : ∀ a, next' (f a) = bared g (next a)) : (x' >>= next') = bared g (x >>= next) := by
  subst hx
  cases x with
  | ok a => exact h a
  | error e => rfl

/-- What was asked for without its spans, and the scope after it. -/
def bareFirst {α : Type} (f : α → α) (both : α × Context) : α × Context := (f both.1, both.2)

theorem names_bareParams (params : List Param) :
    (bareParams params).map Param.name = params.map Param.name := by
  induction params with
  | nil => rfl
  | cons param rest ih =>
    rcases param with ⟨name, value, span⟩
    rw [bareParams, List.map_cons, List.map_cons, ih]
    rfl

theorem resolveTarget_bare (outer : List Context) (here : Context) (target : String)
    (op : Option BinaryOp) (span : Span) :
    resolveTarget outer here target op .nowhere =
      bared id (resolveTarget outer here target op span) := by
  unfold resolveTarget
  split <;> rfl

mutual

theorem Node.resolve_skeleton (inLoop : Bool) (outer : List Context) (here : Context) :
    ∀ node : Node, node.bare.unmarked.resolve inLoop outer here =
      bared (bareFirst Node.bare) (node.resolve inLoop outer here)
  | .int .. | .float .. | .bool .. | .str .. | .null .. | .ident .. => rfl
  | .unary op operand span =>
    bared_bind (operand.resolve_skeleton inLoop outer here) fun _ => rfl
  | .binary op left right span =>
    bared_bind (left.resolve_skeleton inLoop outer here) fun (_, here) =>
      bared_bind (right.resolve_skeleton inLoop outer here) fun _ => rfl
  | .assign target _ .var op value span =>
    bared_bind (value.resolve_skeleton inLoop outer (here.declare target .var).2) fun _ => rfl
  | .assign target _ .const op value span =>
    bared_bind (value.resolve_skeleton inLoop outer (here.declare target .const).2) fun _ => rfl
  | .assign target _ .plain op value span =>
    bared_bind (value.resolve_skeleton inLoop outer here) fun (_, here) =>
      bared_bind (resolveTarget_bare outer here target op span) fun _ => rfl
  | .branch cond yes no _ _ span =>
    bared_bind (cond.resolve_skeleton inLoop outer here) fun (_, here) =>
      bared_bind (yes.resolve_skeleton inLoop (here :: outer) (.fresh .body)) fun _ =>
        bared_bind (resolveOption_skeleton inLoop (here :: outer) (.fresh .body) no) fun _ => rfl
  | .whileLoop cond body _ _ span =>
    bared_bind (cond.resolve_skeleton inLoop (here :: outer) (.fresh .header)) fun (_, header) =>
      bared_bind (body.resolve_skeleton true (header :: here :: outer) (.fresh .body)) fun _ => rfl
  | .forLoop init cond step body _ _ span =>
    bared_bind (resolveOption_skeleton inLoop (here :: outer) (.fresh .header) init)
      fun (_, header) =>
    bared_bind (resolveOption_skeleton inLoop (here :: outer) header cond) fun (_, header) =>
    bared_bind (resolveOption_skeleton inLoop (here :: outer) header step) fun (_, header) =>
    bared_bind (body.resolve_skeleton true (header :: here :: outer) (.fresh .body)) fun _ => rfl
  | .define name (some _) params body _ span =>
    bared_bind (resolveParams_skeleton inLoop outer (here.declare name .var).2 params)
      fun (params, here) =>
    bared_bind ((congrArg (fun names => Node.resolve false _ (Context.declareAll _ names) _)
      (names_bareParams params)).trans (body.resolve_skeleton false (here :: outer) _)) fun _ => rfl
  | .define name none params body _ span =>
    bared_bind (resolveParams_skeleton inLoop outer here params) fun (params, here) =>
    bared_bind ((congrArg (fun names => Node.resolve false _ (Context.declareAll _ names) _)
      (names_bareParams params)).trans (body.resolve_skeleton false (here :: outer) _)) fun _ => rfl
  | .call callee args span =>
    bared_bind (callee.resolve_skeleton inLoop outer here) fun (_, here) =>
      bared_bind (resolveAll_skeleton inLoop outer here args) fun _ => rfl
  | .block body span => bared_bind (resolveAll_skeleton inLoop outer here body) fun _ => rfl
  | .breakLoop span | .continueLoop span => by
    rw [Node.bare, Node.unmarked, Node.resolve, Node.resolve]
    split <;> rfl
  | .ret value span => bared_bind (resolveOption_skeleton inLoop outer here value) fun _ => rfl

theorem resolveOption_skeleton (inLoop : Bool) (outer : List Context) (here : Context) :
    ∀ node : Option Node, resolveOption inLoop outer here (unmarkedOption (bareOption node)) =
      bared (bareFirst bareOption) (resolveOption inLoop outer here node)
  | none => rfl
  | some node => bared_bind (node.resolve_skeleton inLoop outer here) fun _ => rfl

theorem resolveAll_skeleton (inLoop : Bool) (outer : List Context) (here : Context) :
    ∀ nodes : List Node, resolveAll inLoop outer here (unmarkedNodes (bareNodes nodes)) =
      bared (bareFirst bareNodes) (resolveAll inLoop outer here nodes)
  | [] => rfl
  | node :: rest =>
    bared_bind (node.resolve_skeleton inLoop outer here) fun (_, here) =>
      bared_bind (resolveAll_skeleton inLoop outer here rest) fun _ => rfl

theorem resolveParams_skeleton (inLoop : Bool) (outer : List Context) (here : Context) :
    ∀ params : List Param, resolveParams inLoop outer here (unmarkedParams (bareParams params)) =
      bared (bareFirst bareParams) (resolveParams inLoop outer here params)
  | [] => rfl
  | .mk _ value _ :: rest =>
    bared_bind (resolveOption_skeleton inLoop outer here value) fun (_, here) =>
      bared_bind (resolveParams_skeleton inLoop outer here rest) fun _ => rfl

end

theorem bareNodes_eq_map (nodes : List Node) : bareNodes nodes = nodes.map Node.bare := by
  induction nodes with
  | nil => rfl
  | cons node rest ih => rw [bareNodes, ih, List.map_cons]

/-- **The resolved program without its spans is the skeleton, resolved.** -/
theorem Program.resolve_skeleton (program : Program) :
    program.skeleton.resolve = bared Program.bare program.resolve := by
  have hall := resolveAll_skeleton false [] (.fresh .program) program.body
  rw [bareNodes_eq_map] at hall
  refine bared_bind hall fun (body, scope) => ?_
  simp only [bareFirst, bareNodes_eq_map]
  rfl

end SlotScript
