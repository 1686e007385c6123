import Mathlib.Logic.Relation
import SlotScript.Scope.Resolve
import SlotScript.Proofs.Flat.Strict

/-!
# Resolving in place

In an arena the resolver does not build a new tree. It follows the links and overwrites the cells that
have places and shapes, each when the nodes under it are done, so where it stops half way one part of
the arena is resolved and the rest is as it was.

`ShapedLayout.resolve` is this walk. What is shown here holds for every layout, whatever its links lead
to; for layouts that store a program, the walk and `Program.resolve` come to the same.

**Theorem (`ShapedLayout.resolve_even`).** Layouts that only differ in places and shapes are resolved
alike. The walks end the same way, with nothing else changed in either. Every entry is the same in both
then or has not been touched in either, and if the walks do not stop, everything that can be reached is
the same in both.

A walk is `Blind` if it has this property. Walks put together of blind walks are blind, and what is read
from the arena on the way are links, names, operators and literals (`Visit.entry_unmarked`). To resolve
a resolved layout once more is a case of it (`ShapedLayout.resolve_again`): what the second walk does
not overwrite with the same is what it found.
-/

namespace SlotScript.Flat

open Relation (ReflTransGen)

/-! ## The walk -/

/-- Why resolving in place stops. -/
inductive Stop where
  /-- The names cannot be resolved. -/
  | fault (error : ScopeError)
  /-- The arena is broken. -/
  | crash (crash : Crash)
  /-- A link does not lead to an earlier entry. -/
  | upward

/-- A part of the walk. What it has written stays in the arena when it stops. -/
abbrev Walk := ExceptT Stop (StateM Arena)

/-- The arena with another cell in an entry. -/
def Arena.setCell (a : Arena) (link : Nat) (cell : Cell) : Arena :=
  { a with entries := a.entries.modify link fun entry => { entry with cell := cell } }

namespace Walk

/-- Reads something that has to be in the arena. -/
def read (get : Arena → Option α) : Walk α := fun a =>
  match get a with
  | some x => (.ok x, a)
  | none => (.error (.crash .dangling), a)

/-- Overwrites the cell of an entry. -/
def write (link : Nat) (cell : Cell) : Walk Unit := fun a => (.ok (), a.setCell link cell)

/-- Goes on if the names can be resolved so far. -/
def check (result : Except ScopeError α) : Walk α := fun a =>
  match result with
  | .ok x => (.ok x, a)
  | .error e => (.error (.fault e), a)

end Walk

/-- How the nodes under a node are resolved, from whether they stand in the body of a loop, the
enclosing scopes, the innermost scope and the link. The result is the innermost scope after the node. -/
abbrev Visit := Bool → List Context → Context → Nat → Walk Context

namespace Visit

/-- A part that may be missing. -/
def option (visit : Visit) (inLoop : Bool) (outer : List Context) (here : Context) :
    Option Nat → Walk Context
  | none => return here
  | some link => visit inLoop outer here link

/-- Nodes one after the other. -/
def all (visit : Visit) (inLoop : Bool) (outer : List Context) (here : Context) :
    List Nat → Walk Context
  | [] => return here
  | link :: rest => do
    let here ← visit inLoop outer here link
    all visit inLoop outer here rest

/-- The defaults of parameters, one after the other. -/
def defaults (visit : Visit) (inLoop : Bool) (outer : List Context) (here : Context) :
    List Formal → Walk Context
  | [] => return here
  | formal :: rest => do
    let here ← visit.option inLoop outer here formal.default
    defaults visit inLoop outer here rest

/-- Resolves an entry that stands at a link. -/
def entry (visit : Visit) (inLoop : Bool) (outer : List Context) (here : Context) (link : Nat)
    (entry : Entry) : Walk Context :=
  match entry.cell with
  | .int _ | .float _ | .bool _ | .str _ | .null => return here
  | .ident name _ => do
    Walk.write link (.ident name ⟨.reference, Place.find name (here :: outer)⟩)
    return here
  | .unary _ operand => visit inLoop outer here operand
  | .binary _ left right => do
    let here ← visit inLoop outer here left
    visit inLoop outer here right
  | .assign target _ .var op value => do
    let (var, here) := here.declare target .var
    let here ← visit inLoop outer here value
    Walk.write link (.assign target var .var op value)
    return here
  | .assign target _ .const op value => do
    let (var, here) := here.declare target .const
    let here ← visit inLoop outer here value
    Walk.write link (.assign target var .const op value)
    return here
  | .assign target _ .plain op value => do
    let here ← visit inLoop outer here value
    let (var, here) ← Walk.check (resolveTarget outer here target op entry.span)
    Walk.write link (.assign target var .plain op value)
    return here
  | .branch cond yes no _ _ => do
    let here ← visit inLoop outer here cond
    let yesScope ← visit inLoop (here :: outer) (.fresh .body) yes
    let noScope ← visit.option inLoop (here :: outer) (.fresh .body) no
    Walk.write link (.branch cond yes no yesScope.shape noScope.shape)
    return here
  | .whileLoop cond body _ _ => do
    let header ← visit inLoop (here :: outer) (.fresh .header) cond
    let bodyScope ← visit true (header :: here :: outer) (.fresh .body) body
    Walk.write link (.whileLoop cond body header.shape bodyScope.shape)
    return here
  | .forLoop init cond step body _ _ => do
    let header ← visit.option inLoop (here :: outer) (.fresh .header) init
    let header ← visit.option inLoop (here :: outer) header cond
    let header ← visit.option inLoop (here :: outer) header step
    let bodyScope ← visit true (header :: here :: outer) (.fresh .body) body
    Walk.write link (.forLoop init cond step body header.shape bodyScope.shape)
    return here
  | .define name (some _) params body _ => do
    let (var, here) := here.declare name .var
    let formals ← Walk.read (stretch? ·.formals params)
    let here ← visit.defaults inLoop outer here formals
    let frame := (Context.fresh .function).declareAll (formals.map Formal.name)
    let frame ← visit false (here :: outer) frame body
    Walk.write link (.define name (some var) params body frame.shape)
    return here
  | .define name none params body _ => do
    let formals ← Walk.read (stretch? ·.formals params)
    let here ← visit.defaults inLoop outer here formals
    let frame := (Context.fresh .function).declareAll (formals.map Formal.name)
    let frame ← visit false (here :: outer) frame body
    Walk.write link (.define name none params body frame.shape)
    return here
  | .call callee args => do
    let here ← visit inLoop outer here callee
    let args ← Walk.read (stretch? ·.links args)
    visit.all inLoop outer here args
  | .block body => do
    let body ← Walk.read (stretch? ·.links body)
    visit.all inLoop outer here body
  | .breakLoop => Walk.check (if inLoop then .ok here else .error ⟨.strayBreak, entry.span⟩)
  | .continueLoop => Walk.check (if inLoop then .ok here else .error ⟨.strayContinue, entry.span⟩)
  | .ret value => visit.option inLoop outer here value

end Visit

/-- Resolves the node that a link leads to. Links are followed downwards only. -/
def resolveAt (inLoop : Bool) (outer : List Context) (here : Context) (link : Nat) :
    Walk Context := do
  let entry ← Walk.read (·.entries[link]?)
  Visit.entry (fun inLoop outer here inner =>
    if _h : inner < link then resolveAt inLoop outer here inner else throw .upward)
    inLoop outer here link entry
termination_by link

/-- A program in an arena, with the shape of its own scope. -/
structure ShapedLayout extends Layout where
  /-- The shape of the scope that the statements run in. -/
  shape : Shape := .blank

namespace ShapedLayout

/-- Resolves the statements of a program. -/
def walk (body : Range) : Walk Context := do
  let links ← Walk.read (stretch? ·.links body)
  Visit.all resolveAt false [] (.fresh .program) links

/-- Resolves a program in place. The shape of its scope is set at the end. -/
def resolve (layout : ShapedLayout) : Except Stop Unit × ShapedLayout :=
  match walk layout.body layout.arena with
  | (.ok scope, arena) => (.ok (), { layout with arena := arena, shape := scope.shape })
  | (.error stop, arena) => (.error stop, { layout with arena := arena })

end ShapedLayout

/-! ## Places and shapes -/

/-- The cell without its places and shapes. -/
def Cell.unmarked : Cell → Cell
  | .ident name _ => .ident name .unresolved
  | .assign target _ decl op value => .assign target .unresolved decl op value
  | .branch cond yes no _ _ => .branch cond yes no .blank .blank
  | .whileLoop cond body _ _ => .whileLoop cond body .blank .blank
  | .forLoop init cond step body _ _ => .forLoop init cond step body .blank .blank
  | .define name binding params body _ =>
    .define name (binding.map fun _ => .unresolved) params body .blank
  | cell => cell

/-- The entry without its places and shapes. -/
def Entry.unmarked (entry : Entry) : Entry := { entry with cell := entry.cell.unmarked }

/-- The arena without its places and shapes. -/
def Arena.unmarked (a : Arena) : Arena := { a with entries := a.entries.map Entry.unmarked }

/-- The layout without its places and shapes. -/
def ShapedLayout.unmarked (layout : ShapedLayout) : ShapedLayout :=
  { layout with arena := layout.arena.unmarked, shape := .blank }

/-- The cell has no place and no shape. -/
def Cell.plain : Cell → Bool
  | .ident .. | .assign .. | .branch .. | .whileLoop .. | .forLoop .. | .define .. => false
  | _ => true

theorem Cell.unmarked_unmarked (cell : Cell) : cell.unmarked.unmarked = cell.unmarked := by
  cases cell with
  | define name binding => cases binding <;> rfl
  | _ => rfl

theorem Cell.eq_of_plain {cell : Cell} (h : cell.unmarked.plain = true) : cell.unmarked = cell := by
  cases cell <;> first | rfl | cases h

theorem Cell.links?_unmarked {a : Arena} (cell : Cell) :
    cell.unmarked.links? a.unmarked = cell.links? a := by
  cases cell <;> rfl

namespace Arena

variable {a u : Arena} {link : Nat} {cell : Cell}

theorem getElem?_unmarked (h : a.unmarked = u) (i : Nat) :
    a.entries[i]?.map Entry.unmarked = u.entries[i]? := by
  rw [← h, unmarked, List.getElem?_map]

theorem links?_unmarked (a : Arena) (i : Nat) : a.unmarked.links? i = a.links? i := by
  rw [links?, links?, ← getElem?_unmarked rfl, Option.bind_map]
  refine congrArg _ (funext fun entry => ?_)
  exact entry.cell.links?_unmarked

theorem getElem?_setCell (a : Arena) (link i : Nat) (cell : Cell) :
    (a.setCell link cell).entries[i]? =
      if link = i then a.entries[i]?.map fun entry => { entry with cell := cell }
      else a.entries[i]? := by
  rw [setCell, List.getElem?_modify]
  split <;> simp

theorem unmarked_setCell {entry : Entry} (hu : a.unmarked = u)
    (hentry : u.entries[link]? = some entry) (hcell : cell.unmarked = entry.cell.unmarked) :
    (a.setCell link cell).unmarked = u := by
  have hentries : (a.setCell link cell).unmarked.entries = u.entries := by
    refine List.ext_getElem? fun i => ?_
    rw [← getElem?_unmarked rfl, getElem?_setCell, ← getElem?_unmarked hu]
    split
    case isTrue h =>
      subst h
      rw [← getElem?_unmarked hu] at hentry
      obtain ⟨old, hold, rfl⟩ := Option.map_eq_some_iff.1 hentry
      rw [hold]
      exact congrArg (fun cell => some (Entry.mk cell old.span))
        (hcell.trans old.cell.unmarked_unmarked)
    case isFalse => rfl
  subst hu
  exact congrArg (fun entries => { a with entries := entries }) hentries

/-- One of the node's links leads to the other node. -/
def Child (a : Arena) (i j : Nat) : Prop := ∃ links, a.links? i = some links ∧ j ∈ links

/-- The nodes under a link, the one it leads to included. -/
def Under (a : Arena) (link : Nat) : Set Nat := {i | ReflTransGen a.Child link i}

/-- The nodes under links. -/
def UnderAll (a : Arena) (links : List Nat) : Set Nat := {i | ∃ link ∈ links, i ∈ a.Under link}

@[simp]
theorem underAll_nil (a : Arena) : a.UnderAll [] = ∅ := by
  simp [UnderAll]

@[simp]
theorem underAll_cons (a : Arena) (link : Nat) (links : List Nat) :
    a.UnderAll (link :: links) = a.Under link ∪ a.UnderAll links := by
  ext i
  simp [UnderAll]

@[simp]
theorem underAll_append (a : Arena) (links links' : List Nat) :
    a.UnderAll (links ++ links') = a.UnderAll links ∪ a.UnderAll links' := by
  ext i
  simp [UnderAll, or_and_right, exists_or]

end Arena

namespace Walk

variable {α β : Type}

theorem bind_ok {f : Walk α} {a a' : Arena} {x : α} (h : f a = (.ok x, a')) (g : α → Walk β) :
    (f >>= g) a = g x a' := by
  show ExceptT.bindCont g (f a).1 (f a).2 = _
  rw [h]
  rfl

theorem bind_error {f : Walk α} {a a' : Arena} {stop : Stop} (h : f a = (.error stop, a'))
    (g : α → Walk β) : (f >>= g) a = (.error stop, a') := by
  show ExceptT.bindCont g (f a).1 (f a).2 = _
  rw [h]
  rfl

theorem read_some {get : Arena → Option α} {a : Arena} {x : α} (h : get a = some x) :
    read get a = (.ok x, a) := by
  rw [read, h]

theorem read_none {get : Arena → Option α} {a : Arena} (h : get a = none) :
    read get a = (.error (.crash .dangling), a) := by
  rw [read, h]

end Walk

/-! ## Walks that do not see places and shapes -/

/-- Two arenas that are `u` but for places and shapes have become these. Every entry is the same in
both now, or is what it was in both. -/
structure Level (u x y x' y' : Arena) : Prop where
  left : x'.unmarked = u
  right : y'.unmarked = u
  entry : ∀ i : Nat, x'.entries[i]? = y'.entries[i]? ∨
    x'.entries[i]? = x.entries[i]? ∧ y'.entries[i]? = y.entries[i]?

/-- Two walks have ended the same way. If they were not stopped, these entries are the same. -/
inductive Even (u : Arena) (done : Set Nat) (x y : Arena) {α : Type} :
    Except Stop α × Arena → Except Stop α × Arena → Prop
  | ok {r : α} {x' y' : Arena} : Level u x y x' y' →
    (∀ i ∈ done, x'.entries[i]? = y'.entries[i]?) → Even u done x y (.ok r, x') (.ok r, y')
  | error {stop : Stop} {x' y' : Arena} : Level u x y x' y' →
    Even u done x y (.error stop, x') (.error stop, y')

/-- Runs of the walk in arenas that are `u` but for places and shapes end the same way. -/
def Blind (u : Arena) (f : Walk α) (done : Set Nat) : Prop :=
  ∀ x y : Arena, x.unmarked = u → y.unmarked = u → Even u done x y (f x) (f y)

namespace Level

variable {u x y x' y' x'' y'' : Arena}

theorem refl (hx : x.unmarked = u) (hy : y.unmarked = u) : Level u x y x y :=
  ⟨hx, hy, fun _ => .inr ⟨rfl, rfl⟩⟩

theorem trans (h : Level u x y x' y') (h' : Level u x' y' x'' y'') : Level u x y x'' y'' := by
  refine ⟨h'.left, h'.right, fun i => ?_⟩
  rcases h'.entry i with heq | ⟨hx, hy⟩
  · exact .inl heq
  · rw [hx, hy]
    exact h.entry i

/-- What is the same stays the same. -/
theorem keeps (h : Level u x y x' y') {i : Nat} (hi : x.entries[i]? = y.entries[i]?) :
    x'.entries[i]? = y'.entries[i]? := by
  rcases h.entry i with heq | ⟨hx, hy⟩
  · exact heq
  · rw [hx, hy, hi]

end Level

namespace Blind

variable {α β : Type} {u : Arena} {f : Walk α} {g : α → Walk β} {D E : Set Nat}

theorem mono (h : Blind u f D) (hE : E ⊆ D) : Blind u f E := by
  intro x y hx hy
  have heven := h x y hx hy
  generalize f x = left at heven ⊢
  generalize f y = right at heven ⊢
  cases heven with
  | ok hlevel hdone => exact .ok hlevel fun i hi => hdone i (hE hi)
  | error hlevel => exact .error hlevel

theorem bind (hf : Blind u f D) (hg : ∀ r, Blind u (g r) E) : Blind u (f >>= g) (D ∪ E) := by
  intro x y hx hy
  have heven := hf x y hx hy
  generalize hfx : f x = left at heven
  generalize hfy : f y = right at heven
  cases heven with
  | error hlevel =>
    rw [Walk.bind_error hfx, Walk.bind_error hfy]
    exact .error hlevel
  | @ok r x' y' hlevel hdone =>
    rw [Walk.bind_ok hfx, Walk.bind_ok hfy]
    have heven' := hg r x' y' hlevel.left hlevel.right
    generalize g r x' = left at heven' ⊢
    generalize g r y' = right at heven' ⊢
    cases heven' with
    | error hlevel' => exact .error (hlevel.trans hlevel')
    | ok hlevel' hdone' =>
      refine .ok (hlevel.trans hlevel') fun i hi => ?_
      rcases hi with hi | hi
      · exact hlevel'.keeps (hdone i hi)
      · exact hdone' i hi

theorem pure (r : α) : Blind u (pure r) ∅ :=
  fun _ _ hx hy => .ok (.refl hx hy) fun _ hi => hi.elim

theorem throw (stop : Stop) : Blind u (throw stop : Walk α) D :=
  fun _ _ hx hy => .error (.refl hx hy)

theorem check (result : Except ScopeError α) : Blind u (Walk.check result) ∅ := by
  intro x y hx hy
  cases result with
  | ok r => exact .ok (.refl hx hy) fun _ hi => hi.elim
  | error e => exact .error (.refl hx hy)

/-- Links and parameters are the same in both arenas. -/
theorem read {get : Arena → Option α} (hget : ∀ x : Arena, x.unmarked = u → get x = get u)
    (hg : ∀ r, get u = some r → Blind u (g r) D) : Blind u (Walk.read get >>= g) D := by
  intro x y hx hy
  cases hu : get u with
  | none =>
    rw [Walk.bind_error (Walk.read_none ((hget x hx).trans hu)),
      Walk.bind_error (Walk.read_none ((hget y hy).trans hu))]
    exact .error (.refl hx hy)
  | some r =>
    rw [Walk.bind_ok (Walk.read_some ((hget x hx).trans hu)),
      Walk.bind_ok (Walk.read_some ((hget y hy).trans hu))]
    exact hg r hu x y hx hy

theorem readLinks {range : Range} {g : List Nat → Walk β}
    (hg : ∀ links, stretch? u.links range = some links → Blind u (g links) D) :
    Blind u (Walk.read (stretch? ·.links range) >>= g) D :=
  read (fun _ hx => by rw [← hx]; rfl) hg

theorem readFormals {range : Range} {g : List Formal → Walk β}
    (hg : ∀ formals, stretch? u.formals range = some formals → Blind u (g formals) D) :
    Blind u (Walk.read (stretch? ·.formals range) >>= g) D :=
  read (fun _ hx => by rw [← hx]; rfl) hg

/-- What is read from an entry is not its places and shapes. -/
theorem readEntry {link : Nat} {g : Entry → Walk β} (hunmarked : ∀ entry, g entry.unmarked = g entry)
    (hg : ∀ entry, u.entries[link]? = some entry → Blind u (g entry) D) :
    Blind u (Walk.read (·.entries[link]?) >>= g) D := by
  intro x y hx hy
  have hrun : ∀ a : Arena, a.unmarked = u →
      (Walk.read (·.entries[link]?) >>= g) a = (Walk.read (fun _ => u.entries[link]?) >>= g) a := by
    intro a ha
    have hu := Arena.getElem?_unmarked ha link
    cases hentry : a.entries[link]? with
    | none =>
      rw [hentry, Option.map_none] at hu
      rw [Walk.bind_error (Walk.read_none hentry), Walk.bind_error (Walk.read_none hu.symm)]
    | some entry =>
      rw [hentry, Option.map_some] at hu
      rw [Walk.bind_ok (Walk.read_some hentry), Walk.bind_ok (Walk.read_some hu.symm), hunmarked]
  rw [hrun x hx, hrun y hy]
  exact read (fun _ _ => rfl) hg x y hx hy

theorem write {link : Nat} {cell : Cell} {entry : Entry} (hentry : u.entries[link]? = some entry)
    (hcell : cell.unmarked = entry.cell.unmarked) : Blind u (Walk.write link cell) {link} := by
  intro x y hx hy
  have hsame : (x.setCell link cell).entries[link]? = (y.setCell link cell).entries[link]? := by
    rw [Arena.getElem?_setCell, Arena.getElem?_setCell, if_pos rfl, if_pos rfl]
    rw [← Arena.getElem?_unmarked hx] at hentry
    have hentry' := (Arena.getElem?_unmarked hy link).trans (Arena.getElem?_unmarked hx link).symm
    rw [hentry] at hentry'
    obtain ⟨old, hold, rfl⟩ := Option.map_eq_some_iff.1 hentry
    obtain ⟨old', hold', hspan⟩ := Option.map_eq_some_iff.1 hentry'
    have hspan : old'.span = old.span := (congrArg Entry.span hspan :)
    rw [hold, hold', Option.map_some, Option.map_some, hspan]
  refine .ok ⟨Arena.unmarked_setCell hx hentry hcell, Arena.unmarked_setCell hy hentry hcell,
    fun i => ?_⟩ fun i hi => hi ▸ hsame
  by_cases hi : link = i
  · exact .inl (hi ▸ hsame)
  · rw [Arena.getElem?_setCell, Arena.getElem?_setCell, if_neg hi, if_neg hi]
    exact .inr ⟨rfl, rfl⟩

/-- An entry without places and shapes is the same in all the arenas. -/
theorem plain {link : Nat} {entry : Entry} (h : Blind u f D) (hentry : u.entries[link]? = some entry)
    (hplain : entry.cell.plain = true) :
    Blind u f (D ∪ {link}) := by
  have hsame : ∀ a : Arena, a.unmarked = u → a.entries[link]? = some entry := by
    intro a ha
    rw [← Arena.getElem?_unmarked ha] at hentry
    obtain ⟨⟨cell, span⟩, hold, rfl⟩ := Option.map_eq_some_iff.1 hentry
    rw [hold]
    exact congrArg (fun cell => some (Entry.mk cell span)) (Cell.eq_of_plain hplain).symm
  intro x y hx hy
  have heven := h x y hx hy
  generalize f x = left at heven ⊢
  generalize f y = right at heven ⊢
  cases heven with
  | error hlevel => exact .error hlevel
  | ok hlevel hdone =>
    refine .ok hlevel fun i hi => ?_
    rcases hi with hi | rfl
    · exact hdone i hi
    · rw [hsame _ hlevel.left, hsame _ hlevel.right]

end Blind

/-! ## The resolver does not see places and shapes -/

section Visit

variable {u : Arena} {visit : Visit}

theorem Blind.option (hvisit : ∀ inLoop outer here link, Blind u (visit inLoop outer here link)
    (u.Under link)) (inLoop : Bool) (outer : List Context) (here : Context) (link : Option Nat) :
    Blind u (visit.option inLoop outer here link) (u.UnderAll link.toList) := by
  cases link with
  | none => exact (Blind.pure here).mono (by simp)
  | some link => exact (hvisit inLoop outer here link).mono (by simp)

theorem Blind.all (hvisit : ∀ inLoop outer here link, Blind u (visit inLoop outer here link)
    (u.Under link)) (inLoop : Bool) (outer : List Context) (here : Context) (links : List Nat) :
    Blind u (visit.all inLoop outer here links) (u.UnderAll links) := by
  induction links generalizing here with
  | nil => exact (Blind.pure here).mono (by simp)
  | cons link rest ih =>
    rw [Arena.underAll_cons]
    exact (hvisit inLoop outer here link).bind fun here => ih here

theorem Blind.defaults (hvisit : ∀ inLoop outer here link, Blind u (visit inLoop outer here link)
    (u.Under link)) (inLoop : Bool) (outer : List Context) (here : Context)
    (formals : List Formal) : Blind u (visit.defaults inLoop outer here formals)
      (u.UnderAll (formals.filterMap Formal.default)) := by
  induction formals generalizing here with
  | nil => exact (Blind.pure here).mono (by simp)
  | cons formal rest ih =>
    have hsplit : u.UnderAll ((formal :: rest).filterMap Formal.default) =
        u.UnderAll formal.default.toList ∪ u.UnderAll (rest.filterMap Formal.default) := by
      rw [List.filterMap_cons]
      cases formal.default <;> simp
    rw [hsplit]
    exact (Blind.option hvisit inLoop outer here formal.default).bind fun here => ih here

theorem Visit.entry_unmarked (inLoop : Bool) (outer : List Context) (here : Context) (link : Nat)
    (entry : Entry) : visit.entry inLoop outer here link entry.unmarked =
      visit.entry inLoop outer here link entry := by
  obtain ⟨cell, span⟩ := entry
  cases cell with
  | assign target var decl op value => cases decl <;> rfl
  | define name binding params body frame => cases binding <;> rfl
  | _ => rfl

theorem Arena.under_of_links? {link : Nat} {entry : Entry} {links : List Nat}
    (hentry : u.entries[link]? = some entry) (hlinks : entry.cell.links? u = some links) :
    u.Under link ⊆ u.UnderAll links ∪ {link} := by
  intro i hi
  rcases hi.cases_head with rfl | ⟨j, ⟨links', hlinks', hj⟩, hi⟩
  · exact .inr rfl
  · rw [Arena.links?, hentry, Option.bind_some, hlinks] at hlinks'
    exact .inl ⟨j, Option.some.inj hlinks' ▸ hj, hi⟩

namespace Blind

variable {link : Nat} {entry : Entry} {links : List Nat} {f : Walk Context}

theorem writeHere (hentry : u.entries[link]? = some entry) {cell : Cell}
    (hcell : cell.unmarked = entry.cell.unmarked) (here : Context) :
    Blind u (do Walk.write link cell; return here) {link} :=
  ((Blind.write hentry hcell).bind fun _ => .pure here).mono (by simp)

/-- A cell with a place or a shape is written when the nodes under it are done. -/
theorem marked (hentry : u.entries[link]? = some entry) (hf : Blind u f (u.UnderAll links ∪ {link}))
    (hlinks : entry.cell.links? u = some links) : Blind u f (u.Under link) :=
  hf.mono (Arena.under_of_links? hentry hlinks)

/-- Any other cell is left as it is. -/
theorem unmarked (hentry : u.entries[link]? = some entry) (hplain : entry.cell.plain = true)
    (hf : Blind u f (u.UnderAll links)) (hlinks : entry.cell.links? u = some links) :
    Blind u f (u.Under link) :=
  marked hentry (hf.plain hentry hplain) hlinks

/-- A function, with a name or without one. -/
theorem define (hvisit : ∀ inLoop outer here link, Blind u (visit inLoop outer here link)
    (u.Under link)) (inLoop : Bool) (outer : List Context) (here : Context)
    (hentry : u.entries[link]? = some entry) {name : String} {binding var : Option VarRef}
    {params : Range} {body : Nat} {shape : Shape}
    (hcell : entry.cell = .define name binding params body shape)
    (hvar : ∀ shape', (Cell.define name var params body shape').unmarked = entry.cell.unmarked) :
    Blind u (do
      let formals ← Walk.read (stretch? ·.formals params)
      let here ← visit.defaults inLoop outer here formals
      let frame := (Context.fresh .function).declareAll (formals.map Formal.name)
      let frame ← visit false (here :: outer) frame body
      Walk.write link (.define name var params body frame.shape)
      return here) (u.Under link) := by
  refine Blind.readFormals fun formals hformals => marked hentry (Blind.mono
    ((Blind.defaults hvisit inLoop outer here formals).bind fun here =>
      (hvisit false (here :: outer) _ body).bind fun frame => writeHere hentry (hvar _) here)
    ?_) (by rw [hcell, Cell.links?, hformals, Option.map_some])
  simp

/-- A call whose arguments are not there stops before anything has to be the same. -/
theorem call (hvisit : ∀ inLoop outer here link, Blind u (visit inLoop outer here link)
    (u.Under link)) (inLoop : Bool) (outer : List Context) (here : Context)
    (hentry : u.entries[link]? = some entry) {callee : Nat} {args : Range}
    (hcell : entry.cell = .call callee args) :
    Blind u (do
      let here ← visit inLoop outer here callee
      let args ← Walk.read (stretch? ·.links args)
      visit.all inLoop outer here args) (u.Under link) := by
  cases hargs : stretch? u.links args with
  | none =>
    refine ((hvisit inLoop outer here callee).bind fun here =>
      Blind.readLinks (D := u.Under link) fun links hlinks => ?_).mono Set.subset_union_right
    rw [hargs] at hlinks
    cases hlinks
  | some links =>
    refine unmarked hentry (by rw [hcell]; rfl) ?_
      (by rw [hcell, Cell.links?, hargs, Option.map_some])
    rw [Arena.underAll_cons]
    refine (hvisit inLoop outer here callee).bind fun here => Blind.readLinks fun links' hlinks => ?_
    obtain rfl : links = links' := Option.some.inj (hargs.symm.trans hlinks)
    exact Blind.all hvisit inLoop outer here links

end Blind

theorem Blind.entry (hvisit : ∀ inLoop outer here link, Blind u (visit inLoop outer here link)
    (u.Under link)) (inLoop : Bool) (outer : List Context) (here : Context) {link : Nat}
    {entry : Entry} (hentry : u.entries[link]? = some entry) :
    Blind u (visit.entry inLoop outer here link entry) (u.Under link) := by
  obtain ⟨cell, span⟩ := entry
  cases cell with
  | int value | float bits | bool value | str text | null =>
    exact unmarked hentry rfl ((Blind.pure here).mono (by simp)) rfl
  | ident name var =>
    refine marked hentry ((writeHere hentry ?_ here).mono ?_) rfl
    · rfl
    · simp
  | unary op operand =>
    exact unmarked hentry rfl ((hvisit inLoop outer here operand).mono (by simp)) rfl
  | binary op left right =>
    exact unmarked hentry rfl (Blind.mono ((hvisit inLoop outer here left).bind fun here =>
      hvisit inLoop outer here right) (by simp)) rfl
  | assign target var decl op value =>
    cases decl with
    | var | const =>
      refine marked hentry (Blind.mono ((hvisit inLoop outer _ value).bind fun here =>
        writeHere hentry ?_ here) ?_) rfl
      · rfl
      · simp
    | plain =>
      refine marked hentry (Blind.mono ((hvisit inLoop outer here value).bind fun here =>
        (Blind.check (resolveTarget outer here target op span)).bind fun both =>
          writeHere hentry ?_ both.2) ?_) rfl
      · rfl
      · simp
  | branch cond yes no yesShape noShape =>
    refine marked hentry (Blind.mono ((hvisit inLoop outer here cond).bind fun here =>
      (hvisit inLoop (here :: outer) (.fresh .body) yes).bind fun yesScope =>
        (Blind.option hvisit inLoop (here :: outer) (.fresh .body) no).bind fun noScope =>
          writeHere hentry ?_ here) ?_) rfl
    · rfl
    · simp
  | whileLoop cond body header bodyShape =>
    refine marked hentry (Blind.mono
      ((hvisit inLoop (here :: outer) (.fresh .header) cond).bind fun header =>
        (hvisit true (header :: here :: outer) (.fresh .body) body).bind fun bodyScope =>
          writeHere hentry ?_ here) ?_) rfl
    · rfl
    · simp
  | forLoop init cond step body header bodyShape =>
    refine marked hentry (Blind.mono
      ((Blind.option hvisit inLoop (here :: outer) (.fresh .header) init).bind fun header =>
        (Blind.option hvisit inLoop (here :: outer) header cond).bind fun header =>
          (Blind.option hvisit inLoop (here :: outer) header step).bind fun header =>
            (hvisit true (header :: here :: outer) (.fresh .body) body).bind fun bodyScope =>
              writeHere hentry ?_ here) ?_) rfl
    · rfl
    · simp
  | define name binding params body frame =>
    cases binding with
    | none => exact define hvisit inLoop outer here hentry rfl fun _ => rfl
    | some var => exact define hvisit inLoop outer _ hentry rfl fun _ => rfl
  | call callee args => exact call hvisit inLoop outer here hentry rfl
  | block body =>
    exact Blind.readLinks fun links hlinks =>
      unmarked hentry rfl (Blind.all hvisit inLoop outer here links) hlinks
  | breakLoop => exact unmarked hentry rfl ((Blind.check _).mono (by simp)) rfl
  | continueLoop => exact unmarked hentry rfl ((Blind.check _).mono (by simp)) rfl
  | ret value => exact unmarked hentry rfl (Blind.option hvisit inLoop outer here value) rfl

end Visit

theorem resolveAt_blind (u : Arena) (inLoop : Bool) (outer : List Context) (here : Context)
    (link : Nat) : Blind u (resolveAt inLoop outer here link) (u.Under link) := by
  induction link using Nat.strongRecOn generalizing inLoop outer here with
  | ind link ih =>
    rw [resolveAt]
    refine Blind.readEntry (fun entry => Visit.entry_unmarked ..) fun entry hentry =>
      Blind.entry (fun inLoop outer here inner => ?_) inLoop outer here hentry
    split
    case isTrue hlt => exact ih inner hlt inLoop outer here
    case isFalse => exact .throw .upward

namespace ShapedLayout

variable {layout other : ShapedLayout}

theorem walk_blind (u : Arena) (body : Range) :
    Blind u (walk body) {i | ∃ links, stretch? u.links body = some links ∧ i ∈ u.UnderAll links} := by
  refine Blind.readLinks fun links hlinks => ?_
  refine (Blind.all (resolveAt_blind u) false [] (.fresh .program) links).mono ?_
  rintro i ⟨links', hlinks', hi⟩
  rwa [Option.some.inj (hlinks.symm.trans hlinks')]

/-- What can be reached from the statements is under one of them. -/
theorem under_of_reaches {i : Nat} (h : layout.Reaches i) :
    ∃ links, stretch? layout.arena.links layout.body = some links ∧ i ∈ layout.arena.UnderAll links := by
  induction h with
  | body hlinks hj => exact ⟨_, hlinks, _, hj, .refl⟩
  | child _ hlinks hj ih =>
    obtain ⟨links, hbody, link, hlink, hi⟩ := ih
    exact ⟨links, hbody, link, hlink, hi.tail ⟨_, hlinks, hj⟩⟩

theorem underAll_unmarked (a : Arena) (links : List Nat) :
    a.unmarked.UnderAll links = a.UnderAll links := by
  have hchild : a.unmarked.Child = a.Child := by
    funext i j
    rw [Arena.Child, Arena.Child, Arena.links?_unmarked]
  rw [Arena.UnderAll, Arena.UnderAll]
  simp only [Arena.Under, hchild]

theorem resolve_of_ok {scope : Context} {a : Arena}
    (h : walk layout.body layout.arena = (.ok scope, a)) :
    layout.resolve = (.ok (), { layout with arena := a, shape := scope.shape }) := by
  rw [resolve, h]

theorem resolve_of_error {stop : Stop} {a : Arena}
    (h : walk layout.body layout.arena = (.error stop, a)) :
    layout.resolve = (.error stop, { layout with arena := a }) := by
  rw [resolve, h]

/-- **Layouts that only differ in places and shapes are resolved alike.** -/
theorem resolve_even (h : other.unmarked = layout.unmarked) :
    other.resolve.1 = layout.resolve.1 ∧ layout.resolve.2.unmarked = layout.unmarked ∧
      (∀ i : Nat, other.resolve.2.arena.entries[i]? = layout.resolve.2.arena.entries[i]? ∨
        other.resolve.2.arena.entries[i]? = other.arena.entries[i]? ∧
          layout.resolve.2.arena.entries[i]? = layout.arena.entries[i]?) ∧
      (layout.resolve.1 = .ok () → other.resolve.2.shape = layout.resolve.2.shape ∧
        ∀ i, layout.Reaches i →
          other.resolve.2.arena.entries[i]? = layout.resolve.2.arena.entries[i]?) := by
  have harena : other.arena.unmarked = layout.arena.unmarked :=
    (congrArg (fun layout : ShapedLayout => layout.arena) h :)
  have hbody : other.body = layout.body := (congrArg (fun layout : ShapedLayout => layout.body) h :)
  have heven := walk_blind layout.arena.unmarked layout.body other.arena layout.arena harena rfl
  generalize hleft : walk layout.body other.arena = left at heven
  generalize hright : walk layout.body layout.arena = right at heven
  rw [← hbody] at hleft
  cases heven with
  | error hlevel =>
    rw [resolve_of_error hleft, resolve_of_error hright]
    refine ⟨rfl, ?_, hlevel.entry, fun hok => by cases hok⟩
    exact congrArg (fun a => ShapedLayout.mk ⟨a, layout.body⟩ .blank) hlevel.right
  | ok hlevel hdone =>
    rw [resolve_of_ok hleft, resolve_of_ok hright]
    refine ⟨rfl, ?_, hlevel.entry, fun _ => ⟨rfl, fun i hi => hdone i ?_⟩⟩
    · exact congrArg (fun a => ShapedLayout.mk ⟨a, layout.body⟩ .blank) hlevel.right
    · obtain ⟨links, hlinks, hunder⟩ := under_of_reaches hi
      exact ⟨links, hlinks, (underAll_unmarked layout.arena links).symm ▸ hunder⟩

theorem eq_of_entries (h : other.unmarked = layout.unmarked) (hshape : other.shape = layout.shape)
    (hentries : ∀ i : Nat, other.arena.entries[i]? = layout.arena.entries[i]?) : other = layout := by
  obtain ⟨⟨⟨entries, links, formals⟩, body⟩, shape⟩ := layout
  obtain ⟨⟨⟨entries', links', formals'⟩, body'⟩, shape'⟩ := other
  obtain rfl : entries' = entries := List.ext_getElem? hentries
  obtain rfl : shape' = shape := hshape
  obtain rfl : links' = links := (congrArg (fun layout : ShapedLayout => layout.arena.links) h :)
  obtain rfl : formals' = formals := (congrArg (fun layout : ShapedLayout => layout.arena.formals) h :)
  obtain rfl : body' = body := (congrArg (fun layout : ShapedLayout => layout.body) h :)
  rfl

/-- **To resolve a resolved layout once more makes no difference.** -/
theorem resolve_again (h : layout.resolve.1 = .ok ()) :
    layout.resolve.2.resolve = (.ok (), layout.resolve.2) := by
  have hkept : layout.resolve.2.unmarked = layout.unmarked := (resolve_even rfl).2.1
  have hkept' : layout.resolve.2.resolve.2.unmarked = layout.resolve.2.unmarked := (resolve_even rfl).2.1
  obtain ⟨hresult, -, hentry, hshape⟩ := resolve_even hkept
  refine Prod.ext (hresult.trans h) (eq_of_entries hkept' (hshape h).1 fun i => ?_)
  rcases hentry i with heq | ⟨heq, -⟩
  · exact heq
  · exact heq

end ShapedLayout

end SlotScript.Flat
