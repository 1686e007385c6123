import SlotScript.Proofs.Scope.Region
import SlotScript.Proofs.Scope.Lexical

/-!
# Resolving names keeps to the spans of the tree

`Node.Spanned P` says that the spans of a node and of all nodes below it are in the set `P`. The
resolver changes places and shapes, and it blames nodes that it finds.

**Theorem (`Program.resolve_spanned`).** If the spans of a program are in a set, so are those of the
resolved program, and so is the span of an error.

The proof is about the program without its places and shapes (`Node.unmarked`), which is what the
resolver does not change, and about the events of its walk, the first forbidden of which is the
error.
-/

namespace SlotScript

/-- The spans of the node and of all nodes below it are in the set. -/
inductive Node.Spanned (P : Span → Prop) : Node → Prop
  | intro {node : Node} : P node.span → (∀ part ∈ node.parts, Spanned P part.2) → Spanned P node

/-- The spans of all nodes of the program are in the set. -/
def Program.Spanned (P : Span → Prop) (program : Program) : Prop :=
  ∀ node ∈ program.body, node.Spanned P

variable {P : Span → Prop}

theorem Node.Spanned.span {node : Node} (h : node.Spanned P) : P node.span := by
  cases h with
  | intro hspan _ => exact hspan

theorem Node.Spanned.part {node sub : Node} (h : node.Spanned P)
    (hsub : sub ∈ node.parts.map Prod.snd) : sub.Spanned P := by
  cases h with
  | intro _ hparts =>
    obtain ⟨part, hpart, rfl⟩ := List.mem_map.1 hsub
    exact hparts part hpart

/-! ## Places and shapes -/

@[simp] theorem unmarkedOption_eq_map (node : Option Node) :
    unmarkedOption node = node.map Node.unmarked := by
  cases node <;> simp [unmarkedOption]

@[simp] theorem unmarkedNodes_eq_map (nodes : List Node) :
    unmarkedNodes nodes = nodes.map Node.unmarked := by
  induction nodes with
  | nil => simp [unmarkedNodes]
  | cons node rest ih => simp [unmarkedNodes, ih]

theorem defaults_cons (name : String) (value : Option Node) (span : Span) (rest : List Param) :
    Param.defaults (.mk name value span :: rest) = value.toList ++ Param.defaults rest := by
  cases value <;> rfl

theorem defaults_unmarked (params : List Param) :
    Param.defaults (unmarkedParams params) = (Param.defaults params).map Node.unmarked := by
  induction params with
  | nil => rw [unmarkedParams, Param.defaults, List.filterMap_nil, List.map_nil]
  | cons param rest ih =>
    obtain ⟨name, value, span⟩ := param
    rw [unmarkedParams, defaults_cons, defaults_cons, ih, List.map_append]
    cases value <;> simp

@[simp] theorem Node.span_unmarked (node : Node) : node.unmarked.span = node.span := by
  cases node <;> simp [Node.unmarked, Node.span]

theorem Node.parts_unmarked (node : Node) :
    node.unmarked.parts.map Prod.snd = (node.parts.map Prod.snd).map Node.unmarked := by
  cases node with
  | branch cond yes no yesShape noShape span => cases no <;> simp [Node.unmarked, Node.parts]
  | forLoop init cond step body header bodyShape span =>
    cases init <;> cases cond <;> cases step <;> simp [Node.unmarked, Node.parts]
  | define name binding params body frame span =>
    simp [Node.unmarked, Node.parts, defaults_unmarked]
  | ret value span => cases value <;> simp [Node.unmarked, Node.parts]
  | _ => simp [Node.unmarked, Node.parts]

theorem Node.Spanned.unmarked {node : Node} (h : node.Spanned P) : node.unmarked.Spanned P := by
  induction h with
  | @intro node hspan _ ih =>
    refine .intro (by rwa [Node.span_unmarked]) fun part hpart => ?_
    have hmem : part.2 ∈ (node.parts.map Prod.snd).map Node.unmarked := by
      rw [← Node.parts_unmarked]
      exact List.mem_map_of_mem hpart
    simp only [List.mem_map] at hmem
    obtain ⟨_, ⟨part', hpart', rfl⟩, heq⟩ := hmem
    rw [← heq]
    exact ih part' hpart'

theorem Node.Spanned.of_unmarked {node : Node} (h : node.unmarked.Spanned P) : node.Spanned P := by
  obtain ⟨erased, herased⟩ : ∃ erased, erased = node.unmarked := ⟨_, rfl⟩
  rw [← herased] at h
  induction h generalizing node with
  | intro hspan _ ih =>
    subst herased
    refine .intro (by rwa [Node.span_unmarked] at hspan) fun part hpart => ?_
    have hmem : part.2.unmarked ∈ node.unmarked.parts.map Prod.snd := by
      rw [Node.parts_unmarked, List.map_map]
      exact List.mem_map_of_mem hpart
    obtain ⟨part', hpart', heq⟩ := List.mem_map.1 hmem
    exact ih part' hpart' heq

/-! ## Events -/

/-- The places of the events that can be forbidden. -/
def places : List Event → List Span
  | [] => []
  | .assign _ _ span :: rest | .jump _ span :: rest => span :: places rest
  | .enter _ :: rest | .leave :: rest | .declare .. :: rest | .parameter _ :: rest
  | .use _ :: rest => places rest

@[simp] theorem places_append (events events' : List Event) :
    places (events ++ events') = places events ++ places events' := by
  induction events with
  | nil => rfl
  | cons event rest ih => cases event <;> simp [places, ih]

theorem Event.Violates.mem_places {event : Event} {scopes : Scopes} {e : ScopeError}
    (h : event.Violates scopes e) (rest : List Event) : e.span ∈ places (event :: rest) := by
  cases event with
  | assign name compound span =>
    obtain ⟨-, rfl⟩ := h
    exact List.mem_cons_self
  | jump fault span =>
    obtain ⟨-, rfl⟩ := h
    exact List.mem_cons_self
  | _ => exact h.elim

@[simp] theorem places_parameters (params : List Param) :
    places (params.map (.parameter ·.name)) = [] := by
  induction params with
  | nil => rfl
  | cons param rest ih => exact ih

theorem places_listEvents (nodes : List Node) :
    places (listEvents nodes) = nodes.flatMap fun node => places node.events := by
  induction nodes with
  | nil => rfl
  | cons node rest ih => simp [listEvents, ih]

theorem places_optionEvents (node : Option Node) :
    places (optionEvents node) = node.toList.flatMap fun node => places node.events := by
  cases node <;> simp [optionEvents, places]

theorem places_defaultEvents (params : List Param) :
    places (defaultEvents params) =
      (Param.defaults params).flatMap fun node => places node.events := by
  induction params with
  | nil => rfl
  | cons param rest ih =>
    obtain ⟨name, value, span⟩ := param
    simp [defaultEvents, defaults_cons, places_optionEvents, ih]

/-- The place of an event is the node's own, or that of an event right below it. -/
theorem Node.mem_places {node : Node} {span : Span} (h : span ∈ places node.events) :
    span = node.span ∨ ∃ sub ∈ node.parts.map Prod.snd, span ∈ places sub.events := by
  cases node with
  | assign target var decl op value place =>
    cases decl with
    | var | const => exact Or.inr (by simpa [Node.events, Node.parts, places] using h)
    | plain => simpa [Node.events, Node.parts, Node.span, places, or_comm] using h
  | branch cond yes no yesShape noShape place =>
    exact Or.inr (by simpa [Node.events, Node.parts, places_optionEvents, places] using h)
  | forLoop init cond step body header bodyShape place =>
    refine Or.inr ?_
    simp only [Node.events, places, places_append, places_optionEvents, List.mem_append] at h
    simp only [Node.parts, List.map_cons, List.map_map]
    grind
  | define name binding params body frame place =>
    refine Or.inr ?_
    have h : span ∈ places (defaultEvents params) ∨ span ∈ places body.events := by
      cases binding <;> simpa [Node.events, places] using h
    simpa [Node.parts, places_defaultEvents, or_comm] using h
  | breakLoop | continueLoop => simpa [Node.events, places, Node.span, Node.parts] using h
  | int | float | bool | str | null | ident => simp [Node.events, places] at h
  | _ =>
    refine Or.inr ?_
    simpa [Node.events, Node.parts, places_optionEvents, places_listEvents, places] using h

theorem Node.Spanned.event {node : Node} (h : node.Spanned P) {span : Span}
    (hspan : span ∈ places node.events) : P span := by
  induction h with
  | @intro node hnode _ ih =>
    rcases Node.mem_places hspan with rfl | ⟨sub, hsub, hspan⟩
    · exact hnode
    · obtain ⟨part, hpart, rfl⟩ := List.mem_map.1 hsub
      exact ih part hpart hspan

/-- **Resolving keeps to the spans of the program.** -/
theorem Program.resolve_spanned {program : Program} (h : program.Spanned P) :
    (∀ resolved, program.resolve = .ok resolved → resolved.Spanned P) ∧
      ∀ e, program.resolve = .error e → P e.span := by
  have hwalks := program.resolve_walks
  constructor
  · intro resolved hresolved
    rw [hresolved] at hwalks
    obtain ⟨-, -, -, -, hunmarked⟩ := hwalks
    intro node hnode
    have hmem : node.unmarked ∈ resolved.unmarked.body := by
      simpa [Program.unmarked] using ⟨node, hnode, rfl⟩
    rw [hunmarked] at hmem
    obtain ⟨before, hbefore, heq⟩ : ∃ before ∈ program.body, before.unmarked = node.unmarked := by
      simpa [Program.unmarked] using hmem
    exact .of_unmarked (heq ▸ (h before hbefore).unmarked)
  · intro e he
    rw [he] at hwalks
    obtain ⟨before, event, rest, hevents, -, hviolates⟩ := hwalks
    have hmem : e.span ∈ places program.events := by
      rw [hevents, places_append]
      exact List.mem_append_right _ (hviolates.mem_places rest)
    obtain ⟨node, hnode, hspan⟩ : ∃ node ∈ program.body, e.span ∈ places node.events := by
      simpa [Program.events, places, places_listEvents] using hmem
    exact (h node hnode).event hspan

end SlotScript
