import SlotScript.Scope.Resolve
import SlotScript.Proofs.Result

/-!
# What resolving a node comes to

`Node.resolve` succeeds for a node only if it succeeds for the node's parts, one after the other, each
in the scope that the one before has left. `Resolution` lists the ways in which it can succeed, one for
each kind of node (`resolution_of_resolve`), so a proof about a resolved node is a proof about each.
-/

namespace SlotScript

/-- The second node is what resolving the first one makes, and `after` is the innermost scope then. -/
inductive Resolution (inLoop : Bool) (outer : List Context) (here : Context) :
    (node node' : Node) → (after : Context) → Prop
  | ident {name : String} {var : VarRef} {span : Span} :
    Resolution inLoop outer here (.ident name var span)
      (.ident name ⟨.reference, Place.find name (here :: outer)⟩ span) here
  | unary {op : UnaryOp} {operand operand' : Node} {span : Span} {after : Context} :
    operand.resolve inLoop outer here = .ok (operand', after) →
    Resolution inLoop outer here (.unary op operand span) (.unary op operand' span) after
  | binary {op : BinaryOp} {left left' right right' : Node} {span : Span} {between after : Context} :
    left.resolve inLoop outer here = .ok (left', between) →
    right.resolve inLoop outer between = .ok (right', after) →
    Resolution inLoop outer here (.binary op left right span) (.binary op left' right' span) after
  /-- A name is declared before its value is resolved. -/
  | var {target : String} {var : VarRef} {op : Option BinaryOp} {value value' : Node} {span : Span}
    {after : Context} :
    value.resolve inLoop outer (here.declare target .var).2 = .ok (value', after) →
    Resolution inLoop outer here (.assign target var .var op value span)
      (.assign target (here.declare target .var).1 .var op value' span) after
  | const {target : String} {var : VarRef} {op : Option BinaryOp} {value value' : Node} {span : Span}
    {after : Context} :
    value.resolve inLoop outer (here.declare target .const).2 = .ok (value', after) →
    Resolution inLoop outer here (.assign target var .const op value span)
      (.assign target (here.declare target .const).1 .const op value' span) after
  /-- Without a keyword the name is looked up behind the value. -/
  | assign {target : String} {var var' : VarRef} {op : Option BinaryOp} {value value' : Node}
    {span : Span} {between after : Context} :
    value.resolve inLoop outer here = .ok (value', between) →
    resolveTarget outer between target op span = .ok (var', after) →
    Resolution inLoop outer here (.assign target var .plain op value span)
      (.assign target var' .plain op value' span) after
  | branch {cond cond' yes yes' : Node} {no no' : Option Node} {yesShape noShape : Shape} {span : Span}
    {after yesScope noScope : Context} :
    cond.resolve inLoop outer here = .ok (cond', after) →
    yes.resolve inLoop (after :: outer) (.fresh .body) = .ok (yes', yesScope) →
    resolveOption inLoop (after :: outer) (.fresh .body) no = .ok (no', noScope) →
    Resolution inLoop outer here (.branch cond yes no yesShape noShape span)
      (.branch cond' yes' no' yesScope.shape noScope.shape span) after
  | whileLoop {cond cond' body body' : Node} {headerShape bodyShape : Shape} {span : Span}
    {header bodyScope : Context} :
    cond.resolve inLoop (here :: outer) (.fresh .header) = .ok (cond', header) →
    body.resolve true (header :: here :: outer) (.fresh .body) = .ok (body', bodyScope) →
    Resolution inLoop outer here (.whileLoop cond body headerShape bodyShape span)
      (.whileLoop cond' body' header.shape bodyScope.shape span) here
  | forLoop {init init' cond cond' step step' : Option Node} {body body' : Node}
    {headerShape bodyShape : Shape} {span : Span} {afterInit afterCond header bodyScope : Context} :
    resolveOption inLoop (here :: outer) (.fresh .header) init = .ok (init', afterInit) →
    resolveOption inLoop (here :: outer) afterInit cond = .ok (cond', afterCond) →
    resolveOption inLoop (here :: outer) afterCond step = .ok (step', header) →
    body.resolve true (header :: here :: outer) (.fresh .body) = .ok (body', bodyScope) →
    Resolution inLoop outer here (.forLoop init cond step body headerShape bodyShape span)
      (.forLoop init' cond' step' body' header.shape bodyScope.shape span) here
  /-- A function's name is declared before its defaults are resolved. -/
  | named {name : String} {var : VarRef} {params params' : List Param} {body body' : Node}
    {shape : Shape} {span : Span} {after frame : Context} :
    resolveParams inLoop outer (here.declare name .var).2 params = .ok (params', after) →
    body.resolve false (after :: outer) ((Context.fresh .function).declareAll (params'.map Param.name)) =
      .ok (body', frame) →
    Resolution inLoop outer here (.define name (some var) params body shape span)
      (.define name (some (here.declare name .var).1) params' body' frame.shape span) after
  | unnamed {name : String} {params params' : List Param} {body body' : Node} {shape : Shape}
    {span : Span} {after frame : Context} :
    resolveParams inLoop outer here params = .ok (params', after) →
    body.resolve false (after :: outer) ((Context.fresh .function).declareAll (params'.map Param.name)) =
      .ok (body', frame) →
    Resolution inLoop outer here (.define name none params body shape span)
      (.define name none params' body' frame.shape span) after
  | call {callee callee' : Node} {args args' : List Node} {span : Span} {between after : Context} :
    callee.resolve inLoop outer here = .ok (callee', between) →
    resolveAll inLoop outer between args = .ok (args', after) →
    Resolution inLoop outer here (.call callee args span) (.call callee' args' span) after
  | block {body body' : List Node} {span : Span} {after : Context} :
    resolveAll inLoop outer here body = .ok (body', after) →
    Resolution inLoop outer here (.block body span) (.block body' span) after
  | breakLoop {span : Span} :
    inLoop = true → Resolution inLoop outer here (.breakLoop span) (.breakLoop span) here
  | continueLoop {span : Span} :
    inLoop = true → Resolution inLoop outer here (.continueLoop span) (.continueLoop span) here
  | ret {value value' : Option Node} {span : Span} {after : Context} :
    resolveOption inLoop outer here value = .ok (value', after) →
    Resolution inLoop outer here (.ret value span) (.ret value' span) after
  | int {value : Int64} {span : Span} :
    Resolution inLoop outer here (.int value span) (.int value span) here
  | float {bits : UInt64} {span : Span} :
    Resolution inLoop outer here (.float bits span) (.float bits span) here
  | bool {value : Bool} {span : Span} :
    Resolution inLoop outer here (.bool value span) (.bool value span) here
  | str {text : String} {span : Span} :
    Resolution inLoop outer here (.str text span) (.str text span) here
  | null {span : Span} : Resolution inLoop outer here (.null span) (.null span) here

variable {inLoop : Bool} {outer : List Context} {here after : Context}

theorem resolution_of_resolve {node node' : Node}
    (h : node.resolve inLoop outer here = .ok (node', after)) :
    Resolution inLoop outer here node node' after := by
  cases node with
  | ident | int | float | bool | str | null =>
    cases h
    constructor
  | breakLoop span | continueLoop span =>
    simp only [Node.resolve] at h
    split at h
    · cases h
      constructor
      assumption
    · cases h
  | assign target var decl op value span =>
    cases decl with
    | var | const =>
      simp only [Node.resolve, bind_eq_ok_iff, pure_eq_ok_iff, Prod.exists, Prod.mk.injEq] at h
      obtain ⟨value', _, hvalue, rfl, rfl⟩ := h
      constructor
      exact hvalue
    | plain =>
      simp only [Node.resolve, bind_eq_ok_iff, pure_eq_ok_iff, Prod.exists, Prod.mk.injEq] at h
      obtain ⟨value', _, hvalue, var', _, htarget, rfl, rfl⟩ := h
      exact .assign hvalue htarget
  | define name binding params body shape span =>
    cases binding <;>
    · simp only [Node.resolve, bind_eq_ok_iff, pure_eq_ok_iff, Prod.exists, Prod.mk.injEq] at h
      obtain ⟨params', _, hparams, body', _, hbody, rfl, rfl⟩ := h
      constructor
      · exact hparams
      · exact hbody
  | unary | block | ret =>
    simp only [Node.resolve, bind_eq_ok_iff, pure_eq_ok_iff, Prod.exists, Prod.mk.injEq] at h
    obtain ⟨part, _, hpart, rfl, rfl⟩ := h
    constructor
    exact hpart
  | binary | call | whileLoop =>
    simp only [Node.resolve, bind_eq_ok_iff, pure_eq_ok_iff, Prod.exists, Prod.mk.injEq] at h
    obtain ⟨first, _, hfirst, second, _, hsecond, rfl, rfl⟩ := h
    constructor
    · exact hfirst
    · exact hsecond
  | branch cond yes no yesShape noShape span =>
    simp only [Node.resolve, bind_eq_ok_iff, pure_eq_ok_iff, Prod.exists, Prod.mk.injEq] at h
    obtain ⟨cond', _, hcond, yes', _, hyes, no', _, hno, rfl, rfl⟩ := h
    exact .branch hcond hyes hno
  | forLoop init cond step body header bodyShape span =>
    simp only [Node.resolve, bind_eq_ok_iff, pure_eq_ok_iff, Prod.exists, Prod.mk.injEq] at h
    obtain ⟨init', _, hinit, cond', _, hcond, step', _, hstep, body', _, hbody, rfl, rfl⟩ := h
    exact .forLoop hinit hcond hstep hbody

/-! ## Lists of parts -/

theorem resolveOption_some_eq_ok {node : Node} {part : Option Node} :
    resolveOption inLoop outer here (some node) = .ok (part, after) ↔
      ∃ node', node.resolve inLoop outer here = .ok (node', after) ∧ part = some node' := by
  simp only [resolveOption, bind_eq_ok_iff, pure_eq_ok_iff, Prod.exists, Prod.mk.injEq]
  constructor
  · rintro ⟨node', _, hnode, rfl, rfl⟩
    exact ⟨node', hnode, rfl⟩
  · rintro ⟨node', hnode, rfl⟩
    exact ⟨node', after, hnode, rfl, rfl⟩

theorem resolveAll_cons_eq_ok {node : Node} {rest nodes : List Node} :
    resolveAll inLoop outer here (node :: rest) = .ok (nodes, after) ↔
      ∃ node' between rest', node.resolve inLoop outer here = .ok (node', between) ∧
        resolveAll inLoop outer between rest = .ok (rest', after) ∧ nodes = node' :: rest' := by
  simp only [resolveAll, bind_eq_ok_iff, pure_eq_ok_iff, Prod.exists, Prod.mk.injEq]
  constructor
  · rintro ⟨node', between, hnode, rest', _, hrest, rfl, rfl⟩
    exact ⟨node', between, rest', hnode, hrest, rfl⟩
  · rintro ⟨node', between, rest', hnode, hrest, rfl⟩
    exact ⟨node', between, hnode, rest', after, hrest, rfl, rfl⟩

theorem resolveParams_cons_eq_ok {name : String} {value : Option Node} {span : Span}
    {rest params : List Param} :
    resolveParams inLoop outer here (⟨name, value, span⟩ :: rest) = .ok (params, after) ↔
      ∃ value' between rest', resolveOption inLoop outer here value = .ok (value', between) ∧
        resolveParams inLoop outer between rest = .ok (rest', after) ∧
        params = ⟨name, value', span⟩ :: rest' := by
  simp only [resolveParams, bind_eq_ok_iff, pure_eq_ok_iff, Prod.exists, Prod.mk.injEq]
  constructor
  · rintro ⟨value', between, hvalue, rest', _, hrest, rfl, rfl⟩
    exact ⟨value', between, rest', hvalue, hrest, rfl⟩
  · rintro ⟨value', between, rest', hvalue, hrest, rfl⟩
    exact ⟨value', between, hvalue, rest', after, hrest, rfl, rfl⟩

end SlotScript
