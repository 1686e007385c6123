import SlotScript.Proofs.Result
import SlotScript.Proofs.Scope.Walk

/-!
# Resolving names is lexical scoping

**Theorem (`Program.resolve_lexical`).** Resolving the names of a program succeeds exactly if no
event of its walk is forbidden, and otherwise reports the first one that is. If it succeeds, only
places and shapes of the tree have changed, and they are those that the events leave.

The resolver carries contexts where the walk has open scopes, and an open scope determines its
context (`OpenScope.context`). `Resolves` says of one step of the resolver that it does what some
events ask: it fails if and as one of them is forbidden, and otherwise its result, the marks and
the scopes after the events are as a postcondition says. Such statements are chained along the
steps of the resolver (`Resolves.bind`), so that each kind of node takes a few lines.
-/

namespace SlotScript

/-! ## Open scopes as contexts -/

namespace OpenScope

/-- Declarations with their slots. -/
def numbered : List (String × SlotClass) → List (String × SlotClass × Nat)
  | [] => []
  | (name, slotClass) :: earlier => (name, slotClass, slots slotClass earlier) :: numbered earlier

/-- The context that the resolver has for the scope. -/
def context (scope : OpenScope) : Context := ⟨scope.shape, numbered scope.declared⟩

theorem declare_context (scope : OpenScope) (name : String) (slotClass : SlotClass) :
    scope.context.declare name slotClass =
      (⟨.declare, .slot 0 (slots slotClass scope.declared) slotClass⟩,
        (scope.declare name slotClass).context) := by
  cases slotClass <;>
    simp [context, Context.declare, Context.nextSlot, Context.grow, shape, declare, numbered, slots]

theorem lookup_numbered_cons {name other : String} (h : other ≠ name) (slotClass : SlotClass)
    (earlier : List (String × SlotClass)) :
    (numbered ((other, slotClass) :: earlier)).lookup name = (numbered earlier).lookup name := by
  rw [numbered, List.lookup_cons, beq_eq_false_iff_ne.mpr (Ne.symm h)]

theorem lookup_numbered_eq_none {name : String} {declared : List (String × SlotClass)}
    (h : ∀ d ∈ declared, d.1 ≠ name) : (numbered declared).lookup name = none := by
  induction declared with
  | nil => rfl
  | cons d earlier ih =>
    rw [lookup_numbered_cons (h d (by simp)), ih fun d hd => h d (by simp [hd])]

/-- The context finds the most recent declaration of a name. -/
theorem lookup_numbered_append {name : String} {later earlier : List (String × SlotClass)}
    {slotClass : SlotClass} (h : ∀ d ∈ later, d.1 ≠ name) :
    (numbered (later ++ (name, slotClass) :: earlier)).lookup name =
      some (slotClass, slots slotClass earlier) := by
  induction later with
  | nil => simp [numbered]
  | cons d later ih =>
    rw [List.cons_append, lookup_numbered_cons (h d (by simp)), ih fun d hd => h d (by simp [hd])]

/-- A name has a most recent declaration, or none. -/
theorem latest_or_none (name : String) (declared : List (String × SlotClass)) :
    (∀ d ∈ declared, d.1 ≠ name) ∨
      ∃ later slotClass earlier, declared = later ++ (name, slotClass) :: earlier ∧
        ∀ d ∈ later, d.1 ≠ name := by
  induction declared with
  | nil => exact Or.inl (by simp)
  | cons d rest ih =>
    obtain ⟨other, otherClass⟩ := d
    by_cases hname : other = name
    · subst hname
      exact Or.inr ⟨[], otherClass, rest, rfl, by simp⟩
    · rcases ih with hall | ⟨later, slotClass, earlier, rfl, hlater⟩
      · exact Or.inl (List.forall_mem_cons.mpr ⟨hname, hall⟩)
      · exact Or.inr ⟨(other, otherClass) :: later, slotClass, earlier, rfl,
          List.forall_mem_cons.mpr ⟨hname, hlater⟩⟩

end OpenScope

/-- The place as seen from one scope further in. -/
def Place.further : Place → Place
  | .slot distance index slotClass => .slot (distance + 1) index slotClass
  | place => place

theorem Place.findFrom_succ (name : String) (distance : Nat) (contexts : List Context) :
    findFrom name (distance + 1) contexts = (findFrom name distance contexts).further := by
  induction contexts generalizing distance with
  | nil => rfl
  | cons c outer ih =>
    simp only [findFrom]
    split
    · rfl
    · exact ih (distance + 1)

/-- The place that the resolver finds for a name. -/
def Scopes.find (name : String) (scopes : Scopes) : Place :=
  Place.find name (scopes.map OpenScope.context)

namespace Scopes

variable {name : String} {scope : OpenScope} {outer : Scopes}

theorem find_cons_of_forall (h : ∀ d ∈ scope.declared, d.1 ≠ name) :
    find name (scope :: outer) = (find name outer).further := by
  rw [find, List.map_cons, Place.find, Place.findFrom, Context.find?, OpenScope.context,
    OpenScope.lookup_numbered_eq_none h]
  exact Place.findFrom_succ name 0 _

theorem find_cons_of_latest {later earlier : List (String × SlotClass)} {slotClass : SlotClass}
    (hdeclared : scope.declared = later ++ (name, slotClass) :: earlier)
    (h : ∀ d ∈ later, d.1 ≠ name) :
    find name (scope :: outer) = .slot 0 (OpenScope.slots slotClass earlier) slotClass := by
  rw [find, List.map_cons, Place.find, Place.findFrom, Context.find?, OpenScope.context, hdeclared,
    OpenScope.lookup_numbered_append h]

end Scopes

theorem Denotes.find_eq {name : String} {scopes : Scopes} {place : Place}
    (h : Denotes name scopes place) : scopes.find name = place := by
  induction h with
  | here hdeclared hlater => exact Scopes.find_cons_of_latest hdeclared hlater
  | further hall _ ih => rw [Scopes.find_cons_of_forall hall, ih]; rfl
  | @global scopes hall =>
    induction scopes with
    | nil => rfl
    | cons scope outer ih =>
      obtain ⟨hscope, houter⟩ := List.forall_mem_cons.mp hall
      rw [Scopes.find_cons_of_forall hscope, ih houter]
      rfl

theorem exists_denotes (name : String) (scopes : Scopes) : ∃ place, Denotes name scopes place := by
  induction scopes with
  | nil => exact ⟨.global, .global (by simp)⟩
  | cons scope outer ih =>
    rcases OpenScope.latest_or_none name scope.declared with
      hall | ⟨later, slotClass, earlier, hdeclared, hlater⟩
    · obtain ⟨place, hplace⟩ := ih
      cases hplace with
      | here hdeclared hlater => exact ⟨_, .further hall (.here hdeclared hlater)⟩
      | further hall' h => exact ⟨_, .further hall (.further hall' h)⟩
      | global hothers => exact ⟨.global, .global (List.forall_mem_cons.mpr ⟨hall, hothers⟩)⟩
    · exact ⟨_, .here hdeclared hlater⟩

/-- The resolver finds what a name denotes. -/
theorem denotes_iff {name : String} {scopes : Scopes} {place : Place} :
    Denotes name scopes place ↔ scopes.find name = place := by
  refine ⟨Denotes.find_eq, ?_⟩
  rintro rfl
  obtain ⟨place, hplace⟩ := exists_denotes name scopes
  rwa [hplace.find_eq]

theorem Denotes.any_declares {name : String} {scopes : Scopes} {place : Place}
    (h : Denotes name scopes place) :
    scopes.any (·.declares name) = true ↔ place ≠ .global := by
  induction h with
  | here hdeclared _ => simp [OpenScope.declares, hdeclared]
  | further hall _ ih =>
    simp only [ne_eq, reduceCtorEq, not_false_eq_true, iff_true] at ih ⊢
    simp [ih]
  | global hall =>
    simp only [List.any_eq_true, OpenScope.declares, decide_eq_true_eq, ne_eq, not_true_eq_false,
      iff_false]
    rintro ⟨scope, hscope, d, hd, hname⟩
    exact hall scope hscope d hd hname

/-! ## Loops -/

/-- Whether the scopes stand in the body of a loop of their function, as the resolver keeps it. -/
def Scopes.inLoop : Scopes → Bool
  | [] => false
  | scope :: outer =>
    match scope.opening with
    | .loopBody => true
    | .function => false
    | _ => inLoop outer

theorem Scopes.inLoopBody_cons (scope : OpenScope) (outer : Scopes) :
    InLoopBody (scope :: outer) ↔
      scope.opening = .loopBody ∨ scope.opening ≠ .function ∧ InLoopBody outer := by
  constructor
  · rintro ⟨_ | ⟨first, inner⟩, found, rest, heq, hloop, hinner⟩
    · obtain ⟨rfl, -⟩ : scope = found ∧ outer = rest := by simpa using heq
      exact Or.inl hloop
    · obtain ⟨rfl, rfl⟩ : scope = first ∧ outer = inner ++ found :: rest := by simpa using heq
      obtain ⟨hfirst, hinner⟩ := List.forall_mem_cons.mp hinner
      exact Or.inr ⟨hfirst, inner, found, rest, rfl, hloop, hinner⟩
  · rintro (hloop | ⟨hfunction, inner, found, rest, rfl, hloop, hinner⟩)
    · exact ⟨[], scope, outer, rfl, hloop, by simp⟩
    · exact ⟨scope :: inner, found, rest, rfl, hloop,
        List.forall_mem_cons.mpr ⟨hfunction, hinner⟩⟩

theorem Scopes.inLoop_iff (scopes : Scopes) : scopes.inLoop = true ↔ scopes.InLoopBody := by
  induction scopes with
  | nil => simp [inLoop, InLoopBody]
  | cons scope outer ih =>
    rw [inLoopBody_cons, ← ih, inLoop]
    cases scope.opening <;> simp

/-! ## Chains of events -/

theorem Scopes.after_append (scopes : Scopes) (events events' : List Event) :
    scopes.after (events ++ events') = (scopes.after events).after events' :=
  List.foldl_append

variable {scopes : Scopes} {events events' : List Event}

theorem lawful_nil : Lawful scopes [] := by
  intro before event rest h
  cases before <;> cases h

theorem lawful_single {event : Event} (h : ∀ e, ¬ event.Violates scopes e) :
    Lawful scopes [event] := by
  intro before other rest heq
  rcases before with _ | ⟨first, before⟩
  · obtain ⟨rfl, -⟩ : event = other ∧ [] = rest := by simpa using heq
    exact h
  · simp at heq

theorem Lawful.append (h : Lawful scopes events) (h' : Lawful (scopes.after events) events') :
    Lawful scopes (events ++ events') := by
  intro before event rest heq
  rcases List.append_eq_append_iff.mp heq with ⟨middle, rfl, hrest⟩ | ⟨middle, rfl, hrest⟩
  · rw [Scopes.after_append]
    exact h' middle event rest hrest
  · rcases middle with _ | ⟨first, middle⟩
    · rw [List.append_nil] at *
      exact h' [] event rest hrest.symm
    · obtain ⟨rfl, rfl⟩ : event = first ∧ rest = middle ++ events' := by simpa using hrest
      exact h before event middle rfl

theorem Marked.append {marks marks' : List Mark} (h : Marked scopes events marks)
    (h' : Marked (scopes.after events) events' marks') :
    Marked scopes (events ++ events') (marks ++ marks') := by
  induction h with
  | nil => exact h'
  | cons hleaves _ ih =>
    rw [List.append_assoc]
    exact .cons hleaves (ih h')

theorem marked_single {event : Event} {marks : List Mark} (h : event.Leaves scopes marks) :
    Marked scopes [event] marks := by
  have hmarked := Marked.cons h .nil
  rwa [List.append_nil] at hmarked

theorem firstViolation_single {event : Event} {e : ScopeError} (h : event.Violates scopes e) :
    FirstViolation scopes [event] e :=
  ⟨[], event, [], rfl, lawful_nil, h⟩

theorem FirstViolation.append_right {e : ScopeError} (h : FirstViolation scopes events e)
    (events' : List Event) : FirstViolation scopes (events ++ events') e := by
  obtain ⟨before, event, rest, rfl, hlawful, hviolates⟩ := h
  exact ⟨before, event, rest ++ events', by simp, hlawful, hviolates⟩

theorem FirstViolation.append_left {e : ScopeError} (hlawful : Lawful scopes events)
    (h : FirstViolation (scopes.after events) events' e) :
    FirstViolation scopes (events ++ events') e := by
  obtain ⟨before, event, rest, rfl, hbefore, hviolates⟩ := h
  refine ⟨events ++ before, event, rest, by simp, hlawful.append hbefore, ?_⟩
  rwa [Scopes.after_append]

theorem FirstViolation.not_lawful {e : ScopeError} (h : FirstViolation scopes events e) :
    ¬ Lawful scopes events := by
  obtain ⟨before, event, rest, rfl, -, hviolates⟩ := h
  exact fun hlawful => hlawful before event rest rfl e hviolates

theorem Event.Violates.unique {event : Event} {e e' : ScopeError} (h : event.Violates scopes e)
    (h' : event.Violates scopes e') : e = e' := by
  cases event with
  | assign => exact h.2.trans h'.2.symm
  | jump => exact h.2.trans h'.2.symm
  | _ => cases h

theorem FirstViolation.unique {e e' : ScopeError} (h : FirstViolation scopes events e)
    (h' : FirstViolation scopes events e') : e = e' := by
  obtain ⟨before, event, rest, rfl, hlawful, hviolates⟩ := h
  obtain ⟨before', event', rest', heq, hlawful', hviolates'⟩ := h'
  -- A violation that comes earlier would stand in what is lawful before the other.
  rcases List.append_eq_append_iff.mp heq with ⟨middle, rfl, hrest⟩ | ⟨middle, rfl, hrest⟩
  · rcases middle with _ | ⟨first, middle⟩
    · obtain ⟨rfl, -⟩ : event = event' ∧ rest = rest' := by simpa using hrest
      rw [List.append_nil] at hviolates'
      exact hviolates.unique hviolates'
    · obtain ⟨rfl, -⟩ : event = first ∧ rest = middle ++ event' :: rest' := by simpa using hrest
      exact absurd hviolates (hlawful' before event middle rfl e)
  · rcases middle with _ | ⟨first, middle⟩
    · obtain ⟨rfl, -⟩ : event' = event ∧ rest' = rest := by simpa using hrest
      rw [List.append_nil] at hviolates
      exact hviolates.unique hviolates'
    · obtain ⟨rfl, -⟩ : event' = first ∧ rest' = middle ++ event :: rest := by simpa using hrest
      exact absurd hviolates' (hlawful before' event' middle rfl e')

/-! ## Steps of the resolver -/

section Resolves

variable {α β : Type}

/-- A step of the resolver does what the events ask in these scopes. -/
def Resolves (scopes : Scopes) (events : List Event) (result : Except ScopeError α)
    (post : α → List Mark → Scopes → Prop) : Prop :=
  match result with
  | .ok a => Lawful scopes events ∧
    ∃ marks, Marked scopes events marks ∧ post a marks (scopes.after events)
  | .error e => FirstViolation scopes events e

variable {post : α → List Mark → Scopes → Prop}

theorem Resolves.bind {x : Except ScopeError α} {k : α → Except ScopeError β}
    {post' : β → List Mark → Scopes → Prop} (h : Resolves scopes events x post)
    (hk : ∀ a marks after, post a marks after →
      Resolves after events' (k a) fun b marks' after' => post' b (marks ++ marks') after') :
    Resolves scopes (events ++ events') (x >>= k) post' := by
  cases x with
  | error e => exact FirstViolation.append_right h events'
  | ok a =>
    obtain ⟨hlawful, marks, hmarked, hpost⟩ := h
    have hnext := hk a marks _ hpost
    rw [ok_bind]
    cases hka : k a with
    | error e =>
      rw [hka] at hnext
      exact FirstViolation.append_left hlawful hnext
    | ok b =>
      rw [hka] at hnext
      obtain ⟨hlawful', marks', hmarked', hpost'⟩ := hnext
      refine ⟨hlawful.append hlawful', _, hmarked.append hmarked', ?_⟩
      rwa [Scopes.after_append]

theorem Resolves.map {x : Except ScopeError α} {f : α → β}
    {post' : β → List Mark → Scopes → Prop} (h : Resolves scopes events x post)
    (hf : ∀ a marks after, post a marks after → post' (f a) marks after) :
    Resolves scopes events (x >>= fun a => pure (f a)) post' := by
  cases x with
  | error e => exact h
  | ok a =>
    obtain ⟨hlawful, marks, hmarked, hpost⟩ := h
    exact ⟨hlawful, marks, hmarked, hf a marks _ hpost⟩

theorem resolves_ok {a : α} {marks : List Mark} (hlawful : Lawful scopes events)
    (hmarked : Marked scopes events marks) (hpost : post a marks (scopes.after events)) :
    Resolves scopes events (.ok a) post :=
  ⟨hlawful, marks, hmarked, hpost⟩

/-- Events that are allowed come before a step. -/
theorem Resolves.preceded {here : List Mark} {x : Except ScopeError α}
    (hlawful : Lawful scopes events) (hmarked : Marked scopes events here)
    (h : Resolves (scopes.after events) events' x
      fun a marks after => post a (here ++ marks) after) :
    Resolves scopes (events ++ events') x post := by
  cases x with
  | error e => exact FirstViolation.append_left hlawful h
  | ok a =>
    obtain ⟨hlawful', marks, hmarked', hpost⟩ := h
    refine ⟨hlawful.append hlawful', _, hmarked.append hmarked', ?_⟩
    rwa [Scopes.after_append]

theorem Resolves.cons {event : Event} {here : List Mark} {x : Except ScopeError α}
    (hlawful : ∀ e, ¬ event.Violates scopes e) (hleaves : event.Leaves scopes here)
    (h : Resolves (event.next scopes) events x fun a marks after => post a (here ++ marks) after) :
    Resolves scopes ([event] ++ events) x post :=
  Resolves.preceded (lawful_single hlawful) (marked_single hleaves) h

end Resolves

/-- The innermost scope has more declarations, and the resolver's context for it has too. -/
def Kept (scope : OpenScope) (outer : Scopes) (here : Context) (after : Scopes) : Prop :=
  ∃ declared, after = { scope with declared := declared } :: outer ∧
    here = OpenScope.context { scope with declared := declared }

variable {scope : OpenScope} {outer : Scopes}

theorem Kept.refl (scope : OpenScope) (outer : Scopes) :
    Kept scope outer scope.context (scope :: outer) :=
  ⟨scope.declared, rfl, rfl⟩

theorem kept_declare (scope : OpenScope) (outer : Scopes) (name : String) (slotClass : SlotClass) :
    Kept scope outer (scope.context.declare name slotClass).2
      (Scopes.declare name slotClass (scope :: outer)) :=
  ⟨(name, slotClass) :: scope.declared, rfl, by rw [OpenScope.declare_context]; rfl⟩

theorem assign_lawful {name : String} {place : Place} (hdenotes : Denotes name scopes place)
    (hconst : ∀ distance index, place ≠ .slot distance index .const) (compound : Bool)
    (span : Span) : ∀ e, ¬ (Event.assign name compound span).Violates scopes e := by
  rintro e ⟨⟨distance, index, hslot⟩, -⟩
  exact hconst distance index (hdenotes.find_eq.symm.trans hslot.find_eq)

/-- The target of an assignment without a keyword. -/
theorem resolveTarget_resolves (scope : OpenScope) (outer : Scopes) (target : String)
    (op : Option BinaryOp) (span : Span) :
    Resolves (scope :: outer) [.assign target op.isSome span]
      (resolveTarget (outer.map OpenScope.context) scope.context target op span)
      fun r marks after => Kept scope outer r.2 after ∧ marks = [.place r.1] := by
  obtain ⟨place, hdenotes⟩ := exists_denotes target (scope :: outer)
  have hfind : Place.find target (scope.context :: outer.map OpenScope.context) = place :=
    hdenotes.find_eq
  have hany := hdenotes.any_declares
  unfold resolveTarget
  rw [hfind]
  cases place with
  | unresolved => cases hdenotes
  | slot distance index slotClass =>
    cases slotClass with
    | const => exact firstViolation_single ⟨⟨distance, index, hdenotes⟩, rfl⟩
    | var =>
      refine resolves_ok (lawful_single (assign_lawful hdenotes (by simp) _ _))
        (marked_single ⟨_, hdenotes, rfl⟩) ⟨?_, by simp⟩
      simp only [Scopes.after, List.foldl_cons, List.foldl_nil, Event.next, hany.mpr (by simp),
        Bool.or_true, if_true]
      exact Kept.refl scope outer
  | global =>
    cases op with
    | some op =>
      exact resolves_ok (lawful_single (assign_lawful hdenotes (by simp) _ _))
        (marked_single ⟨_, hdenotes, rfl⟩) ⟨Kept.refl scope outer, by simp⟩
    | none =>
      have hnone : (scope :: outer).any (·.declares target) = false :=
        Bool.eq_false_iff.mpr fun h => hany.mp h rfl
      refine resolves_ok (lawful_single (assign_lawful hdenotes (by simp) _ _))
        (marked_single ⟨_, hdenotes, rfl⟩) ⟨?_, by simp [OpenScope.declare_context, Scopes.next]⟩
      simp only [Scopes.after, List.foldl_cons, List.foldl_nil, Event.next, hnone,
        Option.isSome_none, Bool.or_false, Bool.false_eq_true, if_false]
      exact kept_declare scope outer target .var

/-- Parameters are declared one after the other. -/
theorem declareAll_context (opening : Opening) (declared : List (String × SlotClass))
    (outer : Scopes) (params : List Param) :
    ∃ declared',
      Scopes.after (⟨opening, declared⟩ :: outer) (params.map (.parameter ·.name)) =
        ⟨opening, declared'⟩ :: outer ∧
      (OpenScope.context ⟨opening, declared⟩).declareAll (params.map Param.name) =
        OpenScope.context ⟨opening, declared'⟩ := by
  induction params generalizing declared with
  | nil => exact ⟨declared, rfl, rfl⟩
  | cons param rest ih =>
    obtain ⟨declared', hafter, hcontext⟩ := ih ((param.name, .var) :: declared)
    refine ⟨declared', hafter, ?_⟩
    rw [← hcontext, List.map_cons, Context.declareAll, List.foldl_cons,
      OpenScope.declare_context]
    rfl

theorem parameters_lawful (params : List Param) :
    Lawful scopes (params.map (.parameter ·.name)) := by
  intro before event rest heq
  have hmem : event ∈ params.map (Event.parameter ·.name) := by simp [heq]
  obtain ⟨param, -, rfl⟩ := List.mem_map.mp hmem
  exact fun e h => h

theorem parameters_marked (params : List Param) :
    Marked scopes (params.map (.parameter ·.name)) [] := by
  induction params generalizing scopes with
  | nil => exact .nil
  | cons param rest ih =>
    have hleaves : (Event.parameter param.name).Leaves scopes [] := rfl
    exact .cons hleaves ih

/-! ## The walk of a tree -/

/-- The innermost scope is kept, the marks are those of the result, and apart from them the tree
has not changed. -/
def Walked {α β : Type} (marksOf : α → List Mark) (unmarkedOf : α → β) (before : α)
    (scope : OpenScope) (outer : Scopes) (r : α × Context) (marks : List Mark) (after : Scopes) :
    Prop :=
  Kept scope outer r.2 after ∧ marks = marksOf r.1 ∧ unmarkedOf r.1 = unmarkedOf before

theorem violates_enter (opening : Opening) (e : ScopeError) :
    ¬ (Event.enter opening).Violates scopes e := id

theorem violates_leave (e : ScopeError) : ¬ Event.leave.Violates scopes e := id

theorem violates_declare (name : String) (slotClass : SlotClass) (e : ScopeError) :
    ¬ (Event.declare name slotClass).Violates scopes e := id

/-- A jump is allowed in the body of a loop only. -/
theorem jump_resolves (scope : OpenScope) (outer : Scopes) (fault : ScopeFault) (span : Span)
    (node : Node) (hmarks : node.marks = []) :
    Resolves (scope :: outer) [.jump fault span]
      (if Scopes.inLoop (scope :: outer) then .ok (node, scope.context) else .error ⟨fault, span⟩)
      (Walked Node.marks Node.unmarked node scope outer) := by
  split
  · rename_i hloop
    refine resolves_ok (lawful_single ?_) (marked_single rfl) ⟨Kept.refl scope outer, hmarks.symm, rfl⟩
    rintro e ⟨hnot, -⟩
    exact hnot ((Scopes.inLoop_iff _).mp hloop)
  · rename_i hloop
    exact firstViolation_single ⟨fun h => hloop ((Scopes.inLoop_iff _).mpr h), rfl⟩

theorem leaf_resolves (scope : OpenScope) (outer : Scopes) (node : Node)
    (hmarks : node.marks = []) :
    Resolves (scope :: outer) [] (.ok (node, scope.context))
      (Walked Node.marks Node.unmarked node scope outer) :=
  resolves_ok lawful_nil .nil ⟨Kept.refl scope outer, hmarks.symm, rfl⟩

/-- A function after its name: the defaults stand in the scope around it, then the parameters and
the body in a scope of their own. -/
theorem define_resolves (name : String) (binding : Option VarRef) (params : List Param)
    (body : Node) (frame : Shape) (span : Span) (scope : OpenScope) (outer : Scopes)
    (hparams : Resolves (scope :: outer) (defaultEvents params)
      (resolveParams (Scopes.inLoop (scope :: outer)) (outer.map OpenScope.context) scope.context
        params)
      fun r marks after => Walked defaultMarks unmarkedParams params scope outer r marks after ∧
        r.1.map Param.name = params.map Param.name)
    (hbody : ∀ scope outer, Resolves (scope :: outer) body.events
      (body.resolve (Scopes.inLoop (scope :: outer)) (outer.map OpenScope.context) scope.context)
      (Walked Node.marks Node.unmarked body scope outer)) :
    Resolves (scope :: outer)
      (defaultEvents params ++ (.enter .function ::
        (params.map (.parameter ·.name) ++ (body.events ++ [.leave]))))
      (do
        let (params, here) ← resolveParams (Scopes.inLoop (scope :: outer))
          (outer.map OpenScope.context) scope.context params
        let frame := (Context.fresh .function).declareAll (params.map Param.name)
        let (body, frame) ← body.resolve false (here :: outer.map OpenScope.context) frame
        return (Node.define name binding params body frame.shape span, here))
      fun r marks after => Kept scope outer r.2 after ∧
        (binding.map Mark.place).toList ++ marks = r.1.marks ∧
        r.1.unmarked = (Node.define name binding params body frame span).unmarked := by
  refine hparams.bind ?_
  rintro ⟨params', here⟩ marks after ⟨⟨⟨declared, rfl, rfl⟩, rfl, hunmarked⟩, hnames⟩
  refine Resolves.cons (violates_enter _) rfl ?_
  refine Resolves.preceded (parameters_lawful params) (parameters_marked params) ?_
  obtain ⟨declared', hafter, hcontext⟩ := declareAll_context .function []
    ({ scope with declared := declared } :: outer) params
  have hframe : (Context.fresh .function).declareAll (params'.map Param.name) =
      OpenScope.context ⟨.function, declared'⟩ := by
    rw [hnames, ← hcontext]
    rfl
  have hscopes : ((Event.enter .function).next ({ scope with declared := declared } :: outer)).after
      (params.map (.parameter ·.name)) =
        ⟨.function, declared'⟩ :: { scope with declared := declared } :: outer := hafter
  simp only [hframe, hscopes]
  refine (hbody ⟨.function, declared'⟩ ({ scope with declared := declared } :: outer)).bind ?_
  rintro ⟨body', here⟩ marks after ⟨⟨bodyDeclared, rfl, rfl⟩, rfl, hbody⟩
  refine resolves_ok (lawful_single violates_leave) (marked_single ⟨_, _, rfl, rfl⟩) ?_
  refine ⟨⟨declared, rfl, rfl⟩, ?_, by simp [Node.unmarked, hunmarked, hbody]⟩
  cases binding <;> simp [Node.marks, OpenScope.context]

mutual

theorem Node.resolve_walks (node : Node) (scope : OpenScope) (outer : Scopes) :
    Resolves (scope :: outer) node.events
      (node.resolve (Scopes.inLoop (scope :: outer)) (outer.map OpenScope.context) scope.context)
      (Walked Node.marks Node.unmarked node scope outer) := by
  cases node with
  | ident name var span =>
    exact resolves_ok (lawful_single fun e h => h)
      (marked_single ⟨_, denotes_iff.mpr rfl, rfl⟩) ⟨Kept.refl scope outer, rfl, rfl⟩
  | unary op operand span =>
    refine (operand.resolve_walks scope outer).map ?_
    rintro ⟨operand', here⟩ marks after ⟨hkept, rfl, hoperand⟩
    exact ⟨hkept, rfl, by simp [Node.unmarked, hoperand]⟩
  | binary op left right span =>
    refine (left.resolve_walks scope outer).bind ?_
    rintro ⟨left', here⟩ marks after ⟨⟨declared, rfl, rfl⟩, rfl, hleft⟩
    refine (right.resolve_walks { scope with declared := declared } outer).map ?_
    rintro ⟨right', here⟩ marks after ⟨hkept, rfl, hright⟩
    exact ⟨hkept, rfl, by simp [Node.unmarked, hleft, hright]⟩
  | assign target var decl op value span =>
    cases decl with
    | plain =>
      refine (value.resolve_walks scope outer).bind ?_
      rintro ⟨value', here⟩ marks after ⟨⟨declared, rfl, rfl⟩, rfl, hvalue⟩
      refine (resolveTarget_resolves { scope with declared := declared } outer target op span).map ?_
      rintro ⟨var', here⟩ marks after ⟨hkept, rfl⟩
      exact ⟨hkept, rfl, by simp [Node.unmarked, hvalue]⟩
    | _ =>
      simp only [Node.resolve, OpenScope.declare_context]
      refine Resolves.cons (violates_declare _ _) rfl ?_
      refine (value.resolve_walks (scope.declare target _) outer).map ?_
      rintro ⟨value', here⟩ marks after ⟨hkept, rfl, hvalue⟩
      exact ⟨hkept, rfl, by simp [Node.unmarked, hvalue]⟩
  | branch cond yes no yesShape noShape span =>
    refine (cond.resolve_walks scope outer).bind ?_
    rintro ⟨cond', here⟩ marks after ⟨⟨declared, rfl, rfl⟩, rfl, hcond⟩
    refine Resolves.cons (violates_enter _) rfl ?_
    refine (yes.resolve_walks ⟨.branch, []⟩ ({ scope with declared := declared } :: outer)).bind ?_
    rintro ⟨yes', here⟩ marks after ⟨⟨yesDeclared, rfl, rfl⟩, rfl, hyes⟩
    refine Resolves.cons violates_leave ⟨_, _, rfl, rfl⟩ ?_
    refine Resolves.cons (violates_enter _) rfl ?_
    refine (option_resolve_walks no ⟨.branch, []⟩ ({ scope with declared := declared } :: outer)).bind ?_
    rintro ⟨no', here⟩ marks after ⟨⟨noDeclared, rfl, rfl⟩, rfl, hno⟩
    refine resolves_ok (lawful_single violates_leave) (marked_single ⟨_, _, rfl, rfl⟩) ?_
    refine ⟨⟨declared, rfl, rfl⟩, ?_, by simp [Node.unmarked, hcond, hyes, hno]⟩
    simp [Node.marks, OpenScope.context]
  | whileLoop cond body header bodyShape span =>
    refine Resolves.cons (violates_enter _) rfl ?_
    refine (cond.resolve_walks ⟨.header, []⟩ (scope :: outer)).bind ?_
    rintro ⟨cond', here⟩ marks after ⟨⟨declared, rfl, rfl⟩, rfl, hcond⟩
    refine Resolves.cons (violates_enter _) rfl ?_
    refine (body.resolve_walks ⟨.loopBody, []⟩ (⟨.header, declared⟩ :: scope :: outer)).bind ?_
    rintro ⟨body', here⟩ marks after ⟨⟨bodyDeclared, rfl, rfl⟩, rfl, hbody⟩
    refine Resolves.cons violates_leave ⟨_, _, rfl, rfl⟩ ?_
    refine resolves_ok (lawful_single violates_leave) (marked_single ⟨_, _, rfl, rfl⟩) ?_
    refine ⟨Kept.refl scope outer, ?_, by simp [Node.unmarked, hcond, hbody]⟩
    simp [Node.marks, OpenScope.context]
  | forLoop init cond step body header bodyShape span =>
    refine Resolves.cons (violates_enter _) rfl ?_
    refine (option_resolve_walks init ⟨.header, []⟩ (scope :: outer)).bind ?_
    rintro ⟨init', here⟩ marks after ⟨⟨declared, rfl, rfl⟩, rfl, hinit⟩
    refine (option_resolve_walks cond ⟨.header, declared⟩ (scope :: outer)).bind ?_
    rintro ⟨cond', here⟩ marks after ⟨⟨declared, rfl, rfl⟩, rfl, hcond⟩
    refine (option_resolve_walks step ⟨.header, declared⟩ (scope :: outer)).bind ?_
    rintro ⟨step', here⟩ marks after ⟨⟨declared, rfl, rfl⟩, rfl, hstep⟩
    refine Resolves.cons (violates_enter _) rfl ?_
    refine (body.resolve_walks ⟨.loopBody, []⟩ (⟨.header, declared⟩ :: scope :: outer)).bind ?_
    rintro ⟨body', here⟩ marks after ⟨⟨bodyDeclared, rfl, rfl⟩, rfl, hbody⟩
    refine Resolves.cons violates_leave ⟨_, _, rfl, rfl⟩ ?_
    refine resolves_ok (lawful_single violates_leave) (marked_single ⟨_, _, rfl, rfl⟩) ?_
    refine ⟨Kept.refl scope outer, ?_, by simp [Node.unmarked, hinit, hcond, hstep, hbody]⟩
    simp [Node.marks, OpenScope.context]
  | define name binding params body frame span =>
    cases binding with
    | none =>
      have h := define_resolves name none params body frame span scope outer
        (params_resolve_walks params scope outer) fun scope outer => body.resolve_walks scope outer
      exact h
    | some var =>
      simp only [Node.resolve, OpenScope.declare_context]
      refine Resolves.cons (violates_declare _ _) rfl ?_
      have h := define_resolves name (some ⟨.declare, Scopes.next .var (scope :: outer)⟩) params body
        frame span (scope.declare name .var) outer
        (params_resolve_walks params (scope.declare name .var) outer)
        fun scope outer => body.resolve_walks scope outer
      exact h
  | call callee args span =>
    refine (callee.resolve_walks scope outer).bind ?_
    rintro ⟨callee', here⟩ marks after ⟨⟨declared, rfl, rfl⟩, rfl, hcallee⟩
    refine (list_resolve_walks args { scope with declared := declared } outer).map ?_
    rintro ⟨args', here⟩ marks after ⟨hkept, rfl, hargs⟩
    exact ⟨hkept, rfl, by simp [Node.unmarked, hcallee, hargs]⟩
  | block body span =>
    refine (list_resolve_walks body scope outer).map ?_
    rintro ⟨body', here⟩ marks after ⟨hkept, rfl, hbody⟩
    exact ⟨hkept, rfl, by simp [Node.unmarked, hbody]⟩
  | ret value span =>
    refine (option_resolve_walks value scope outer).map ?_
    rintro ⟨value', here⟩ marks after ⟨hkept, rfl, hvalue⟩
    exact ⟨hkept, rfl, by simp [Node.unmarked, hvalue]⟩
  | breakLoop span => exact jump_resolves scope outer .strayBreak span (.breakLoop span) rfl
  | continueLoop span =>
    exact jump_resolves scope outer .strayContinue span (.continueLoop span) rfl
  | int value span => exact leaf_resolves scope outer (.int value span) rfl
  | float bits span => exact leaf_resolves scope outer (.float bits span) rfl
  | bool value span => exact leaf_resolves scope outer (.bool value span) rfl
  | str text span => exact leaf_resolves scope outer (.str text span) rfl
  | null span => exact leaf_resolves scope outer (.null span) rfl
termination_by structural node

theorem option_resolve_walks (part : Option Node) (scope : OpenScope) (outer : Scopes) :
    Resolves (scope :: outer) (optionEvents part)
      (resolveOption (Scopes.inLoop (scope :: outer)) (outer.map OpenScope.context) scope.context
        part)
      (Walked optionMarks unmarkedOption part scope outer) := by
  cases part with
  | none => exact resolves_ok lawful_nil .nil ⟨Kept.refl scope outer, rfl, rfl⟩
  | some node =>
    refine (node.resolve_walks scope outer).map ?_
    rintro ⟨node', here⟩ marks after ⟨hkept, rfl, hnode⟩
    exact ⟨hkept, rfl, by simp [unmarkedOption, hnode]⟩
termination_by structural part

theorem list_resolve_walks (nodes : List Node) (scope : OpenScope) (outer : Scopes) :
    Resolves (scope :: outer) (listEvents nodes)
      (resolveAll (Scopes.inLoop (scope :: outer)) (outer.map OpenScope.context) scope.context
        nodes)
      (Walked listMarks unmarkedNodes nodes scope outer) := by
  cases nodes with
  | nil => exact resolves_ok lawful_nil .nil ⟨Kept.refl scope outer, rfl, rfl⟩
  | cons node rest =>
    refine (node.resolve_walks scope outer).bind ?_
    rintro ⟨node', here⟩ marks after ⟨⟨declared, rfl, rfl⟩, rfl, hnode⟩
    refine (list_resolve_walks rest { scope with declared := declared } outer).map ?_
    rintro ⟨rest', here⟩ marks after ⟨hkept, rfl, hrest⟩
    exact ⟨hkept, rfl, by simp [unmarkedNodes, hnode, hrest]⟩
termination_by structural nodes

theorem params_resolve_walks (params : List Param) (scope : OpenScope) (outer : Scopes) :
    Resolves (scope :: outer) (defaultEvents params)
      (resolveParams (Scopes.inLoop (scope :: outer)) (outer.map OpenScope.context) scope.context
        params)
      fun r marks after => Walked defaultMarks unmarkedParams params scope outer r marks after ∧
        r.1.map Param.name = params.map Param.name := by
  cases params with
  | nil => exact resolves_ok lawful_nil .nil ⟨⟨Kept.refl scope outer, rfl, rfl⟩, rfl⟩
  | cons param rest =>
    obtain ⟨name, default, span⟩ := param
    refine (option_resolve_walks default scope outer).bind ?_
    rintro ⟨default', here⟩ marks after ⟨⟨declared, rfl, rfl⟩, rfl, hdefault⟩
    refine (params_resolve_walks rest { scope with declared := declared } outer).map ?_
    rintro ⟨rest', here⟩ marks after ⟨⟨hkept, rfl, hrest⟩, hnames⟩
    refine ⟨⟨hkept, rfl, by simp [unmarkedParams, hdefault, hrest]⟩, ?_⟩
    simp [hnames, Param.name]
termination_by structural params

end

theorem Program.resolve_walks (program : Program) :
    Resolves [] program.events program.resolve fun resolved marks _ =>
      marks = resolved.marks ∧ resolved.unmarked = program.unmarked := by
  refine Resolves.cons (violates_enter _) rfl ?_
  refine (list_resolve_walks program.body ⟨.program, []⟩ []).bind ?_
  rintro ⟨body, here⟩ marks after ⟨⟨declared, rfl, rfl⟩, rfl, hbody⟩
  refine resolves_ok (lawful_single violates_leave) (marked_single ⟨_, _, rfl, rfl⟩) ⟨rfl, ?_⟩
  rw [Program.unmarked, Program.unmarked, hbody]

/-- **Resolving names is lexical scoping.** -/
theorem Program.resolve_lexical (program : Program) :
    ((∃ resolved, program.resolve = .ok resolved) ↔ Lawful [] program.events) ∧
      (∀ e, program.resolve = .error e ↔ FirstViolation [] program.events e) ∧
      ∀ resolved, program.resolve = .ok resolved →
        Marked [] program.events resolved.marks ∧ resolved.unmarked = program.unmarked := by
  have hwalks := program.resolve_walks
  cases hresolve : program.resolve with
  | ok resolved =>
    rw [hresolve] at hwalks
    obtain ⟨hlawful, marks, hmarked, rfl, hunmarked⟩ := hwalks
    refine ⟨⟨fun _ => hlawful, fun _ => ⟨resolved, rfl⟩⟩, fun e => ⟨nofun, fun h => ?_⟩, ?_⟩
    · exact absurd hlawful h.not_lawful
    · rintro _ ⟨⟩
      exact ⟨hmarked, hunmarked⟩
  | error e =>
    rw [hresolve] at hwalks
    have hfirst : FirstViolation [] program.events e := hwalks
    refine ⟨⟨nofun, fun h => ?_⟩, fun e' => ⟨?_, fun h => ?_⟩, nofun⟩
    · exact absurd h hfirst.not_lawful
    · rintro ⟨⟩
      exact hfirst
    · rw [hfirst.unique h]

/-- `const c = true; def f(c) \x7b c = 1 \x7d; while (c) \x7b x = c; break \x7d` -/
def Program.shadowing : Program where
  body :=
    [.assign "c" .unresolved .const none (.bool true ⟨10, 14⟩) ⟨0, 14⟩,
      .define "f" (some .unresolved) [.mk "c" none ⟨22, 23⟩]
        (.block [.assign "c" .unresolved .plain none (.int 1 ⟨31, 32⟩) ⟨27, 32⟩] ⟨25, 34⟩)
        .blank ⟨16, 34⟩,
      .whileLoop (.ident "c" .unresolved ⟨43, 44⟩)
        (.block [.assign "x" .unresolved .plain none (.ident "c" .unresolved ⟨52, 53⟩) ⟨48, 53⟩,
          .breakLoop ⟨55, 60⟩] ⟨46, 62⟩)
        .blank .blank ⟨36, 62⟩]

theorem Program.resolve_lexical_shadowing :
    ∃ resolved, Program.shadowing.resolve = .ok resolved ∧
      Marked [] Program.shadowing.events resolved.marks ∧
      resolved.unmarked = Program.shadowing.unmarked := by
  obtain ⟨resolved, hresolved⟩ :=
    exists_ok_of_isOk (by decide +kernel : Program.shadowing.resolve.isOk = true)
  exact ⟨resolved, hresolved, (Program.resolve_lexical Program.shadowing).2.2 resolved hresolved⟩

end SlotScript
