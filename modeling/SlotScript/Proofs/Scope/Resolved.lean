import Mathlib.Data.List.Forall2
import SlotScript.Proofs.Scope.Region
import SlotScript.Proofs.Scope.Resolution

/-!
# What resolving names leaves behind

Every occurrence of a name in a resolved program has a place that one of the regions around it
declares for this name, and every scope has the size its region needs.

The walk opens a context where the tree has a region, and closes it with the region's own
declarations (`Node.resolve_extends`). So for every node of the resolved tree there is a walk that
made it, under contexts that have declared no more than the regions around the node will
(`Resolved`). This passes from a node to its parts (`Resolved.part`), and for one node it gives
the places of its names and the sizes of its scopes (`Resolved.settled`).
-/

namespace SlotScript

/-! ## Contexts -/

/-- The declarations of a class take the slots from zero on, each once. -/
def Context.Numbered (c : Context) : Prop :=
  ∀ slotClass, ((c.names.filter (·.2.1 = slotClass)).map (·.2.2)) =
    (List.range (c.shape.size slotClass)).reverse

/-- The context has declared `new` since it was `here`. -/
structure Context.Extends (here after : Context) (new : List Declaration) : Prop where
  names : after.names = new ++ here.names
  kind : after.shape.kind = here.shape.kind
  numbered : here.Numbered → after.Numbered

namespace Context

theorem numbered_fresh (kind : ScopeKind) : (fresh kind).Numbered := by
  intro slotClass
  cases slotClass <;> rfl

theorem Extends.refl (here : Context) : here.Extends here [] :=
  ⟨rfl, rfl, id⟩

theorem Extends.trans {a b c : Context} {new new' : List Declaration} (h : a.Extends b new)
    (h' : b.Extends c new') : a.Extends c (new' ++ new) :=
  ⟨by rw [h'.names, h.names, List.append_assoc], h'.kind.trans h.kind,
    fun hn => h'.numbered (h.numbered hn)⟩

theorem extends_declare (here : Context) (name : String) (slotClass : SlotClass) :
    here.Extends (here.declare name slotClass).2 ((here.declare name slotClass).1.declared name) where
  names := rfl
  kind := by cases slotClass <;> rfl
  numbered := by
    intro hn other
    have := hn other
    cases slotClass <;> cases other <;>
      simp_all [declare, grow, nextSlot, Shape.size, List.range_succ]

theorem extends_declareAll (here : Context) (params : List Param) :
    here.Extends (here.declareAll (params.map Param.name)) (Param.slots here.shape.vars params) := by
  induction params generalizing here with
  | nil => exact Extends.refl here
  | cons param rest ih =>
    have hd := extends_declare here param.name .var
    exact hd.trans (ih (here.declare param.name .var).2)

end Context

/-! ## The walk declares what the tree declares -/

variable {inLoop : Bool} {outer : List Context}

theorem resolveTarget_extends {here after : Context} {target : String} {op : Option BinaryOp}
    {span : Span} {var : VarRef} (h : resolveTarget outer here target op span = .ok (var, after)) :
    here.Extends after (var.declared target) := by
  unfold resolveTarget at h
  split at h
  · cases h
  · cases h; exact Context.Extends.refl _
  · cases h; exact Context.Extends.refl _
  · cases h; exact Context.extends_declare _ _ _

mutual

theorem Node.resolve_extends (inLoop : Bool) (outer : List Context) (here : Context)
    (node : Node) {node' : Node} {after : Context}
    (h : node.resolve inLoop outer here = .ok (node', after)) : here.Extends after node'.declared := by
  match node, resolution_of_resolve h with
  | .unary _ operand _, .unary ho => exact (operand.resolve_extends inLoop outer here ho :)
  | .binary _ left right _, .binary hl hr =>
    exact (left.resolve_extends inLoop outer here hl).trans (right.resolve_extends inLoop outer _ hr)
  | .assign target _ .var _ value _, .var hv =>
    exact (here.extends_declare target .var).trans (value.resolve_extends inLoop outer _ hv)
  | .assign target _ .const _ value _, .const hv =>
    exact (here.extends_declare target .const).trans (value.resolve_extends inLoop outer _ hv)
  | .assign _ _ .plain _ value _, .assign hv ht =>
    exact (value.resolve_extends inLoop outer here hv).trans (resolveTarget_extends ht)
  | .branch cond _ _ _ _ _, .branch hc _ _ =>
    exact (cond.resolve_extends inLoop outer here hc :)
  | .define name (some _) params _ _ _, .named hp _ =>
    exact (here.extends_declare name .var).trans (resolveParams_extends inLoop outer _ params hp)
  | .define _ none params _ _ _, .unnamed hp _ =>
    exact (Context.Extends.refl here).trans (resolveParams_extends inLoop outer here params hp)
  | .call callee args _, .call hc ha =>
    exact (callee.resolve_extends inLoop outer here hc).trans (resolveAll_extends inLoop outer _ args ha)
  | .block body _, .block hb => exact resolveAll_extends inLoop outer here body hb
  | .ret value _, .ret hv => exact resolveOption_extends inLoop outer here value hv
  -- What a loop declares belongs to the scope of its header.
  | .whileLoop .., .whileLoop _ _ | .forLoop .., .forLoop _ _ _ _ => exact .refl here
  | .breakLoop _, .breakLoop _ | .continueLoop _, .continueLoop _ | .ident .., .ident | .int .., .int
  | .float .., .float | .bool .., .bool | .str .., .str | .null _, .null => exact .refl here

theorem resolveOption_extends (inLoop : Bool) (outer : List Context) (here : Context)
    (part : Option Node) {part' : Option Node} {after : Context}
    (h : resolveOption inLoop outer here part = .ok (part', after)) :
    here.Extends after (declaredOption part') := by
  cases part with
  | none =>
    cases h
    exact .refl here
  | some node =>
    obtain ⟨node', hn, rfl⟩ := resolveOption_some_eq_ok.mp h
    exact node.resolve_extends inLoop outer here hn

theorem resolveAll_extends (inLoop : Bool) (outer : List Context) (here : Context)
    (nodes : List Node) {nodes' : List Node} {after : Context}
    (h : resolveAll inLoop outer here nodes = .ok (nodes', after)) :
    here.Extends after (declaredAll nodes') := by
  cases nodes with
  | nil =>
    cases h
    exact .refl here
  | cons node rest =>
    obtain ⟨node', between, rest', hn, hr, rfl⟩ := resolveAll_cons_eq_ok.mp h
    exact (node.resolve_extends inLoop outer here hn).trans
      (resolveAll_extends inLoop outer between rest hr)

theorem resolveParams_extends (inLoop : Bool) (outer : List Context) (here : Context)
    (params : List Param) {params' : List Param} {after : Context}
    (h : resolveParams inLoop outer here params = .ok (params', after)) :
    here.Extends after (declaredParams params') := by
  match params with
  | [] =>
    cases h
    exact .refl here
  | .mk name value span :: rest =>
    obtain ⟨value', between, rest', hv, hr, rfl⟩ := resolveParams_cons_eq_ok.mp h
    exact (resolveOption_extends inLoop outer here value hv).trans
      (resolveParams_extends inLoop outer between rest hr)

end

/-! ## Places -/

/-- The contexts have declared no more than the regions of the chain, one by one. -/
abbrev Covered (chain : List Region) (contexts : List Context) : Prop :=
  List.Forall₂ (fun region context => context.names ⊆ region.declared) chain contexts

theorem mem_of_lookup_eq_some {name : String} {names : List Declaration}
    {slot : SlotClass × Nat} (h : names.lookup name = some slot) : (name, slot) ∈ names := by
  induction names with
  | nil => simp at h
  | cons entry rest ih =>
    obtain ⟨other, slot'⟩ := entry
    rw [List.lookup_cons] at h
    by_cases hn : name = other
    · subst hn
      simp only [beq_self_eq_true] at h
      cases h
      exact List.mem_cons_self
    · rw [beq_false_of_ne hn] at h
      exact List.mem_cons_of_mem _ (ih h)

theorem Place.findFrom_within (name : String) {chain : List Region} {contexts : List Context}
    (hc : Covered chain contexts) (before : List Region) :
    (Place.findFrom name before.length contexts).Within (before ++ chain) name := by
  induction hc generalizing before with
  | nil => trivial
  | @cons region context chain contexts hsub _ ih =>
    unfold Place.findFrom
    split
    · rename_i slotClass index hf
      refine ⟨region, ?_, hsub (mem_of_lookup_eq_some hf)⟩
      rw [List.getElem?_append_right (Nat.le_refl _), Nat.sub_self]
      rfl
    · have := ih (before ++ [region])
      rwa [List.append_assoc, List.length_append] at this

/-- A name is found in a region of the chain that declares it. -/
theorem Place.find_within (name : String) {chain : List Region} {contexts : List Context}
    (hc : Covered chain contexts) : (Place.find name contexts).Within chain name :=
  Place.findFrom_within name hc []

theorem Covered.mono {chain : List Region} {here after : Context} {outer : List Context}
    {new : List Declaration} (hc : Covered chain (after :: outer)) (h : here.Extends after new) :
    Covered chain (here :: outer) := by
  cases hc with
  | cons hsub hrest =>
    refine .cons (fun d hd => hsub ?_) hrest
    rw [h.names]
    exact List.mem_append_right _ hd

/-- A context that started out empty is covered by a region with the same declarations. -/
theorem Covered.fresh {chain : List Region} {contexts : List Context} (hc : Covered chain contexts)
    {kind : ScopeKind} {after : Context} {region : Region}
    (h : (Context.fresh kind).Extends after region.declared) :
    Covered (region :: chain) (after :: contexts) := by
  refine .cons (fun d hd => ?_) hc
  rw [h.names] at hd
  simpa [Context.fresh] using hd

theorem Region.fits_of_extends {kind : ScopeKind} {after : Context} {region : Region}
    (h : (Context.fresh kind).Extends after region.declared) (hk : region.kind = kind) :
    region.Fits after.shape where
  kind := by rw [h.kind, hk]; rfl
  slots slotClass := by
    have := h.numbered (Context.numbered_fresh kind) slotClass
    rw [h.names] at this
    simpa [Context.fresh] using this

/-! ## Every node of a resolved tree -/

/-- The node was made by a walk, in a loop or not, under contexts that have declared no more
than the regions of the chain. -/
def Resolved (inLoop : Bool) (chain : List Region) (node : Node) : Prop :=
  ∃ outer here raw after, Node.resolve inLoop outer here raw = .ok (node, after) ∧
    Covered chain (after :: outer)

theorem Resolved.ofOption {inLoop : Bool} {outer : List Context} {here after : Context}
    {chain : List Region} {raw : Option Node} {node : Node}
    (h : resolveOption inLoop outer here raw = .ok (some node, after))
    (hc : Covered chain (after :: outer)) : Resolved inLoop chain node := by
  cases raw with
  | none => simp [resolveOption] at h
  | some raw =>
    obtain ⟨_, hn, ⟨⟩⟩ := resolveOption_some_eq_ok.mp h
    exact ⟨outer, here, raw, _, hn, hc⟩

theorem Resolved.ofAll {inLoop : Bool} {outer : List Context} {here after : Context}
    {chain : List Region} {raw nodes : List Node}
    (h : resolveAll inLoop outer here raw = .ok (nodes, after))
    (hc : Covered chain (after :: outer)) : ∀ node ∈ nodes, Resolved inLoop chain node := by
  induction raw generalizing here nodes with
  | nil =>
    simp only [resolveAll, Except.ok.injEq, Prod.mk.injEq] at h
    simp [← h.1]
  | cons first rest ih =>
    obtain ⟨first', here', rest', hf, hr, rfl⟩ := resolveAll_cons_eq_ok.mp h
    intro node hn
    rcases List.mem_cons.1 hn with rfl | hn
    · exact ⟨outer, here, first, here', hf, hc.mono (resolveAll_extends inLoop outer here' rest hr)⟩
    · exact ih hr node hn

theorem Resolved.ofParams {inLoop : Bool} {outer : List Context} {here after : Context}
    {chain : List Region} {raw params : List Param}
    (h : resolveParams inLoop outer here raw = .ok (params, after))
    (hc : Covered chain (after :: outer)) :
    ∀ value ∈ Param.defaults params, Resolved inLoop chain value := by
  induction raw generalizing here params with
  | nil =>
    simp only [resolveParams, Except.ok.injEq, Prod.mk.injEq] at h
    simp [← h.1, Param.defaults]
  | cons first rest ih =>
    obtain ⟨name, value, span⟩ := first
    obtain ⟨value', here', rest', hv, hr, rfl⟩ := resolveParams_cons_eq_ok.mp h
    intro node hn
    rw [Param.defaults, List.filterMap_cons] at hn
    cases value' with
    | none => exact ih hr node hn
    | some value' =>
      rcases List.mem_cons.1 hn with rfl | hn
      · exact .ofOption hv (hc.mono (resolveParams_extends inLoop outer here' rest hr))
      · exact ih hr node hn


/-- The places of a node's own names and the sizes of the scopes it opens are right. -/
def Node.Settled (chain : List Region) : Node → Prop
  | .ident name var _ => var.place.Within chain name
  | .assign target var _ _ _ _ => var.place.Within chain target
  | .branch _ yes no yesShape noShape _ =>
    (Region.ofBody yes).Fits yesShape ∧ ∀ node ∈ no, (Region.ofBody node).Fits noShape
  | .whileLoop cond body header bodyShape _ =>
    (Region.ofHeader none (some cond) none body).Fits header ∧ (Region.ofBody body).Fits bodyShape
  | .forLoop init cond step body header bodyShape _ =>
    (Region.ofHeader init cond step body).Fits header ∧ (Region.ofBody body).Fits bodyShape
  | .define name binding params body frame _ =>
    (∀ var ∈ binding, var.place.Within chain name) ∧ (Region.ofFunction params body).Fits frame
  | _ => True

theorem Context.declare_within {region : Region} {chain : List Region} {here after : Context}
    {outer : List Context} {name : String} {slotClass : SlotClass} {new : List Declaration}
    (hc : Covered (region :: chain) (after :: outer))
    (h : (here.declare name slotClass).2.Extends after new) :
    (here.declare name slotClass).1.place.Within (region :: chain) name := by
  cases hc with
  | cons hsub _ =>
    refine ⟨region, rfl, hsub ?_⟩
    rw [h.names]
    exact List.mem_append_right _ List.mem_cons_self

theorem resolveTarget_within {chain : List Region} {here after : Context} {outer : List Context}
    {target : String} {op : Option BinaryOp} {span : Span} {var : VarRef}
    (h : resolveTarget outer here target op span = .ok (var, after))
    (hc : Covered chain (after :: outer)) : var.place.Within chain target := by
  have hfind := Place.find_within target (hc.mono (resolveTarget_extends h))
  unfold resolveTarget at h
  split at h
  · cases h
  · rename_i hf
    cases h
    rwa [hf] at hfind
  · cases h
    trivial
  · cases h
    cases hc with
    | cons hsub hrest => exact Context.declare_within (.cons hsub hrest) (.refl _)

/-- A function's frame: its parameters, then what its body declares. -/
theorem extends_frame {outer : List Context} {params : List Param} {raw body : Node}
    {frame : Context}
    (h : raw.resolve false outer ((Context.fresh .function).declareAll (params.map Param.name)) =
      .ok (body, frame)) :
    (Context.fresh .function).Extends frame (Region.ofFunction params body).declared :=
  (Context.extends_declareAll (Context.fresh .function) params).trans
    (raw.resolve_extends false outer _ h)

/-- A `for` header: its start, its condition, its step. -/
theorem extends_header {inLoop : Bool} {outer : List Context} {init cond step : Option Node}
    {init' cond' step' : Option Node} {a b c : Context} (body : Node)
    (hi : resolveOption inLoop outer (.fresh .header) init = .ok (init', a))
    (hc : resolveOption inLoop outer a cond = .ok (cond', b))
    (hs : resolveOption inLoop outer b step = .ok (step', c)) :
    (Context.fresh .header).Extends c (Region.ofHeader init' cond' step' body).declared :=
  ((resolveOption_extends inLoop outer _ init hi).trans
    (resolveOption_extends inLoop outer a cond hc)).trans
    (resolveOption_extends inLoop outer b step hs)

theorem Resolved.settled {inLoop : Bool} {chain : List Region} {node : Node}
    (h : Resolved inLoop chain node) : node.Settled chain := by
  obtain ⟨outer, here, raw, after, h, hc⟩ := h
  cases resolution_of_resolve h with
  | ident => exact Place.find_within _ hc
  | assign _ ht => exact resolveTarget_within ht hc
  | var hv | const hv =>
    cases hc with
    | cons hsub hrest =>
      exact Context.declare_within (.cons hsub hrest) (Node.resolve_extends _ _ _ _ hv)
  | branch _ hy hn =>
    refine ⟨Region.fits_of_extends (Node.resolve_extends _ _ _ _ hy) rfl, fun node hno => ?_⟩
    cases hno
    exact Region.fits_of_extends (resolveOption_extends _ _ _ _ hn) rfl
  | whileLoop hh hb =>
    refine ⟨Region.fits_of_extends ?_ rfl, Region.fits_of_extends (Node.resolve_extends _ _ _ _ hb) rfl⟩
    exact (Context.Extends.refl _).trans (Node.resolve_extends _ _ _ _ hh)
  | forLoop hi hcond hs hb =>
    exact ⟨Region.fits_of_extends (extends_header _ hi hcond hs) rfl,
      Region.fits_of_extends (Node.resolve_extends _ _ _ _ hb) rfl⟩
  | unnamed _ hb => exact ⟨by simp, Region.fits_of_extends (extends_frame hb) rfl⟩
  | named hp hb =>
    refine ⟨fun var hv => ?_, Region.fits_of_extends (extends_frame hb) rfl⟩
    cases hv
    cases hc with
    | cons hsub hrest =>
      exact Context.declare_within (.cons hsub hrest) (resolveParams_extends _ _ _ _ hp)
  | _ => trivial

/-- Only a definition is resolved to a definition, and its body outside every loop. -/
theorem Resolved.body {inLoop : Bool} {chain : List Region} {name : String}
    {binding : Option VarRef} {params : List Param} {body : Node} {frame : Shape} {span : Span}
    (h : Resolved inLoop chain (.define name binding params body frame span)) :
    Resolved false (.ofFunction params body :: chain) body := by
  obtain ⟨outer, here, raw, after, h, hc⟩ := h
  cases resolution_of_resolve h with
  | named _ hb | unnamed _ hb => exact ⟨_, _, _, _, hb, hc.fresh (extends_frame hb)⟩

/-- What holds the parts of a node was made by the walk that made the node. -/
theorem Resolved.part {inLoop : Bool} {chain inner : List Region} {node sub : Node}
    (h : Resolved inLoop chain node) (hp : (inner, sub) ∈ node.parts) :
    ∃ inLoop', Resolved inLoop' (inner ++ chain) sub := by
  obtain ⟨outer, here, raw, after, h, hc⟩ := h
  cases resolution_of_resolve h with
  | unary ho =>
    simp only [Node.parts, List.mem_singleton, Prod.mk.injEq] at hp
    obtain ⟨rfl, rfl⟩ := hp
    exact ⟨_, outer, here, _, _, ho, hc⟩
  | binary hl hr =>
    simp only [Node.parts, List.mem_cons, List.not_mem_nil, or_false, Prod.mk.injEq] at hp
    obtain ⟨rfl, rfl⟩ | ⟨rfl, rfl⟩ := hp
    · exact ⟨_, outer, here, _, _, hl, hc.mono (Node.resolve_extends _ _ _ _ hr)⟩
    · exact ⟨_, outer, _, _, _, hr, hc⟩
  | assign hv ht =>
    simp only [Node.parts, List.mem_singleton, Prod.mk.injEq] at hp
    obtain ⟨rfl, rfl⟩ := hp
    exact ⟨_, outer, here, _, _, hv, hc.mono (resolveTarget_extends ht)⟩
  | var hv | const hv =>
    simp only [Node.parts, List.mem_singleton, Prod.mk.injEq] at hp
    obtain ⟨rfl, rfl⟩ := hp
    exact ⟨_, outer, _, _, _, hv, hc⟩
  | branch hcond hy hn =>
    simp only [Node.parts, List.mem_cons, List.mem_map, Option.mem_toList, Prod.mk.injEq] at hp
    obtain ⟨rfl, rfl⟩ | ⟨rfl, rfl⟩ | ⟨node, hno, rfl, rfl⟩ := hp
    · exact ⟨_, outer, here, _, _, hcond, hc⟩
    · exact ⟨_, _, _, _, _, hy, hc.fresh (Node.resolve_extends _ _ _ _ hy)⟩
    · cases hno
      exact ⟨_, .ofOption hn (hc.fresh (resolveOption_extends _ _ _ _ hn))⟩
  | @whileLoop _ cond' _ body' _ _ _ header _ hh hb =>
    have hheader : Covered (Region.ofHeader none (some cond') none body' :: chain)
        (header :: here :: outer) :=
      hc.fresh ((Context.Extends.refl _).trans (Node.resolve_extends _ _ _ _ hh))
    simp only [Node.parts, List.mem_cons, List.not_mem_nil, or_false, Prod.mk.injEq] at hp
    obtain ⟨rfl, rfl⟩ | ⟨rfl, rfl⟩ := hp
    · exact ⟨_, _, _, _, header, hh, hheader⟩
    · exact ⟨_, _, _, _, _, hb, hheader.fresh (Node.resolve_extends _ _ _ _ hb)⟩
  | @forLoop _ init' _ cond' _ step' _ body' _ _ _ _ _ header _ hi hcond hs hb =>
    have hheader : Covered (Region.ofHeader init' cond' step' body' :: chain)
        (header :: here :: outer) := hc.fresh (extends_header body' hi hcond hs)
    have hbefore := hheader.mono (resolveOption_extends _ _ _ _ hs)
    simp only [Node.parts, List.mem_cons, List.mem_map, List.mem_append, Option.mem_toList,
      Prod.mk.injEq] at hp
    obtain ⟨rfl, rfl⟩ | ⟨part, (hpart | hpart) | hpart, rfl, rfl⟩ := hp
    · exact ⟨_, _, _, _, _, hb, hheader.fresh (Node.resolve_extends _ _ _ _ hb)⟩
    · cases hpart
      exact ⟨_, .ofOption hi (hbefore.mono (resolveOption_extends _ _ _ _ hcond))⟩
    · cases hpart
      exact ⟨_, .ofOption hcond hbefore⟩
    · cases hpart
      exact ⟨_, .ofOption hs hheader⟩
  | named hparams hb | unnamed hparams hb =>
    simp only [Node.parts, List.mem_cons, List.mem_map, Prod.mk.injEq] at hp
    obtain ⟨rfl, rfl⟩ | ⟨value, hv, rfl, rfl⟩ := hp
    · exact ⟨_, _, _, _, _, hb, hc.fresh (extends_frame hb)⟩
    · exact ⟨_, .ofParams hparams hc value hv⟩
  | call hcallee ha =>
    simp only [Node.parts, List.mem_cons, List.mem_map, Prod.mk.injEq] at hp
    obtain ⟨rfl, rfl⟩ | ⟨arg, harg, rfl, rfl⟩ := hp
    · exact ⟨_, outer, here, _, _, hcallee, hc.mono (resolveAll_extends _ _ _ _ ha)⟩
    · exact ⟨_, .ofAll ha hc arg harg⟩
  | block hb =>
    simp only [Node.parts, List.mem_map, Prod.mk.injEq] at hp
    obtain ⟨statement, hs, rfl, rfl⟩ := hp
    exact ⟨_, .ofAll hb hc statement hs⟩
  | ret hv =>
    simp only [Node.parts, List.mem_map, Option.mem_toList, Prod.mk.injEq] at hp
    obtain ⟨node, hn, rfl, rfl⟩ := hp
    cases hn
    exact ⟨_, .ofOption hv hc⟩
  | _ => simp [Node.parts] at hp

/-! ## Resolved programs -/

namespace Program

variable {raw program : Program}

theorem resolve_eq_ok (h : raw.resolve = .ok program) :
    ∃ scope, resolveAll false [] (.fresh .program) raw.body = .ok (program.body, scope) ∧
      program.shape = scope.shape := by
  simp only [Program.resolve, bind_eq_ok_iff, pure_eq_ok_iff, Prod.exists] at h
  obtain ⟨body, scope, hb, rfl⟩ := h
  exact ⟨scope, hb, rfl⟩

theorem fits_of_resolve (h : raw.resolve = .ok program) :
    (Region.ofProgram program).Fits program.shape := by
  obtain ⟨scope, hb, hs⟩ := resolve_eq_ok h
  rw [hs]
  exact Region.fits_of_extends (resolveAll_extends _ _ _ _ hb) rfl

theorem resolved_of_mem (h : raw.resolve = .ok program) {node : Node} (hn : node ∈ program.body) :
    Resolved false [.ofProgram program] node := by
  obtain ⟨scope, hb, hs⟩ := resolve_eq_ok h
  exact .ofAll hb (Covered.fresh .nil (resolveAll_extends _ _ _ _ hb)) node hn

/-- Every node of a resolved program was made by a walk under the regions around it. -/
theorem Occurs.resolved (h : raw.resolve = .ok program) {chain : List Region} {node : Node}
    (hn : program.Occurs chain node) : ∃ inLoop, Resolved inLoop chain node := by
  induction hn with
  | statement hmem => exact ⟨false, resolved_of_mem h hmem⟩
  | part _ hp ih =>
    obtain ⟨inLoop, ih⟩ := ih
    exact ih.part hp

theorem Occurs.settled (h : raw.resolve = .ok program) {chain : List Region} {node : Node}
    (hn : program.Occurs chain node) : node.Settled chain := by
  obtain ⟨inLoop, hr⟩ := hn.resolved h
  exact hr.settled

theorem mem_slots {params : List Param} {slot : Nat} {param : Param}
    (h : params[slot]? = some param) (start : Nat) :
    (param.name, SlotClass.var, start + slot) ∈ Param.slots start params := by
  induction params generalizing slot start with
  | nil => simp at h
  | cons first rest ih =>
    rw [Param.slots]
    cases slot with
    | zero =>
      cases h
      simp
    | succ slot =>
      have := ih (by simpa using h) (start + 1)
      rw [Nat.add_right_comm] at this
      exact List.mem_append_left _ this

/-- Every name of a resolved program stands for a variable that a region around it declares, or
for a global name. -/
theorem Mentions.within (h : raw.resolve = .ok program) {chain : List Region} {name : String}
    {place : Place} (hm : program.Mentions chain name place) : place.Within chain name := by
  cases hm with
  | value ho => exact ho.settled h
  | target ho => exact ho.settled h
  | function ho => exact (ho.settled h).1 _ rfl
  | @param _ _ _ params body _ _ slot param ho hp =>
    refine ⟨_, rfl, List.mem_append_right _ ?_⟩
    have := mem_slots hp 0
    rwa [Nat.zero_add] at this

end Program

end SlotScript
