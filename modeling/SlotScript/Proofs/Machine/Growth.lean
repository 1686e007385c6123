import SlotScript.Machine.Store

/-!
# The store only grows

Opening a scope and writing a cell are all that ever happens to the scopes of a store. Neither
moves a scope, changes what it links to, or changes its number of slots (`Store.Grows`). So the
cell that a place denotes (`Store.Denotes`) stays the same for the rest of the run. A read sees
the last write to its cell and nothing else.
-/

namespace SlotScript

/-- The size of a scope. -/
def Scope.shape (scope : Scope) : Shape := ⟨scope.kind, scope.vars.size, scope.consts.size⟩

@[simp] theorem Scope.shape_ofShape (shape : Shape) (parent : Option ScopeId) :
    (Scope.ofShape shape parent).shape = shape := by
  simp [Scope.shape, Scope.ofShape]

@[simp] theorem Scope.parent_ofShape (shape : Shape) (parent : Option ScopeId) :
    (Scope.ofShape shape parent).parent = parent := rfl

@[simp] theorem Scope.shape_write (scope : Scope) (slotClass : SlotClass) (index : Nat)
    (value : Value) : (scope.write slotClass index value).shape = scope.shape := by
  cases slotClass <;> simp [Scope.shape, Scope.write]

@[simp] theorem Scope.parent_write (scope : Scope) (slotClass : SlotClass) (index : Nat)
    (value : Value) : (scope.write slotClass index value).parent = scope.parent := by
  cases slotClass <;> rfl

theorem Scope.slots_write (scope : Scope) (slotClass other : SlotClass) (index : Nat)
    (value : Value) : (scope.write slotClass index value).slots other =
      if other = slotClass then (scope.slots other).setIfInBounds index (some value)
      else scope.slots other := by
  cases slotClass <;> cases other <;> rfl

/-- Scopes of one shape have the same number of slots of each class. -/
theorem Scope.size_slots_congr {scope other : Scope} (h : scope.shape = other.shape)
    (slotClass : SlotClass) : (scope.slots slotClass).size = (other.slots slotClass).size := by
  simp only [Scope.shape, Shape.mk.injEq] at h
  cases slotClass with
  | var => exact h.2.1
  | const => exact h.2.2

namespace Store

/-! ## What a place denotes -/

/-- The second scope stands so many links outwards from the first. -/
inductive Outward (store : Store) : Nat → ScopeId → ScopeId → Prop
  | here {id : ScopeId} : Outward store 0 id id
  | next {distance : Nat} {id parent target : ScopeId} {scope : Scope} :
      store.scopes[id]? = some scope → scope.parent = some parent →
      Outward store distance parent target → Outward store (distance + 1) id target

/-- The place, seen from the scope, denotes the cell. -/
inductive Denotes (store : Store) (id : ScopeId) : Place → String → Cell → Prop
  | slot {target : ScopeId} {distance index : Nat} {slotClass : SlotClass} {name : String} {scope : Scope} :
      store.Outward distance id target → store.scopes[target]? = some scope →
      index < (scope.slots slotClass).size →
      Denotes store id (.slot distance index slotClass) name (.slot target index slotClass)
  | global {name : String} : Denotes store id .global name (.global name)

theorem ancestor_eq_some_iff {store : Store} {distance : Nat} {id target : ScopeId} :
    store.ancestor distance id = some target ↔ store.Outward distance id target := by
  induction distance generalizing id with
  | zero =>
    constructor
    · rintro ⟨⟩
      exact .here
    · rintro ⟨⟩
      rfl
  | succ distance ih =>
    constructor
    · intro h
      rw [ancestor] at h
      split at h
      · next hscope => exact .next hscope rfl (ih.mp h)
      · cases h
    · rintro (_ | @⟨_, _, _, _, scope, hscope, hparent, hrest⟩)
      obtain ⟨kind, vars, consts, link⟩ := scope
      cases hparent
      simp only [ancestor, hscope]
      exact ih.mpr hrest

/-- So many links lead to one scope only. -/
theorem Outward.unique {store : Store} {distance : Nat} {id target other : ScopeId}
    (h : store.Outward distance id target) (h' : store.Outward distance id other) : target = other :=
  Option.some.inj ((ancestor_eq_some_iff.mpr h).symm.trans (ancestor_eq_some_iff.mpr h'))

theorem cell?_eq_some_iff {store : Store} {id : ScopeId} {place : Place} {name : String} {cell : Cell} :
    store.cell? id place name = some cell ↔ store.Denotes id place name cell := by
  constructor
  · intro h
    cases place with
    | unresolved => cases h
    | global =>
      cases h
      exact .global
    | slot distance index slotClass =>
      simp only [cell?] at h
      split at h
      · cases h
      · next htarget =>
        split at h
        · cases h
        · next hscope =>
          split at h
          · next hindex =>
            cases h
            exact .slot (ancestor_eq_some_iff.mp htarget) hscope hindex
          · cases h
  · rintro (⟨houtward, hscope, hindex⟩ | _)
    · simp only [cell?, ancestor_eq_some_iff.mpr houtward, hscope, if_pos hindex]
    · rfl

/-! ## Growth -/

/-- Every scope of the first store is in the second, with the same size and the same link. -/
def Grows (store after : Store) : Prop :=
  ∀ (id : ScopeId) (scope : Scope), store.scopes[id]? = some scope →
    ∃ scope', after.scopes[id]? = some scope' ∧ scope'.shape = scope.shape ∧
      scope'.parent = scope.parent

theorem Grows.refl (store : Store) : store.Grows store :=
  fun _ scope h => ⟨scope, h, rfl, rfl⟩

theorem Grows.trans {a b c : Store} (h : a.Grows b) (h' : b.Grows c) : a.Grows c := by
  intro id scope hs
  obtain ⟨scope', hs', hshape, hparent⟩ := h id scope hs
  obtain ⟨scope'', hs'', hshape', hparent'⟩ := h' id scope' hs'
  exact ⟨scope'', hs'', hshape'.trans hshape, hparent'.trans hparent⟩

theorem grows_openScope (store : Store) (shape : Shape) (parent : Option ScopeId) :
    store.Grows (store.openScope shape parent).2 := by
  intro id scope h
  refine ⟨scope, ?_, rfl, rfl⟩
  have hlt : id < store.scopes.size := (Array.getElem?_eq_some_iff.1 h).1
  show (store.scopes.push _)[id]? = some scope
  rw [Array.getElem?_push, if_neg (Nat.ne_of_lt hlt), h]

theorem grows_write (store : Store) (cell : Cell) (value : Value) :
    store.Grows (store.write cell value) := by
  cases cell with
  | global name => exact Grows.refl store
  | slot target index slotClass =>
    intro id scope h
    show ∃ scope', (store.scopes.modify target _)[id]? = some scope' ∧ _
    rw [Array.getElem?_modify]
    by_cases hid : target = id
    · rw [if_pos hid, h]
      exact ⟨_, rfl, Scope.shape_write .., Scope.parent_write ..⟩
    · rw [if_neg hid]
      exact ⟨scope, h, rfl, rfl⟩

theorem Outward.grows {store after : Store} {distance : Nat} {id target : ScopeId}
    (h : store.Outward distance id target) (hg : store.Grows after) : after.Outward distance id target := by
  induction h with
  | here => exact .here
  | next hscope hparent _ ih =>
    obtain ⟨scope', hscope', -, hparent'⟩ := hg _ _ hscope
    exact .next hscope' (hparent'.trans hparent) ih

/-- A place denotes the same cell for the rest of the run. -/
theorem Grows.cell? {store after : Store} (h : store.Grows after) {id : ScopeId} {place : Place}
    {name : String} {cell : Cell} (hc : store.cell? id place name = some cell) :
    after.cell? id place name = some cell := by
  rw [cell?_eq_some_iff] at hc ⊢
  cases hc with
  | global => exact .global
  | slot houtward hscope hindex =>
    obtain ⟨scope', hscope', hshape, -⟩ := h _ _ hscope
    refine .slot (houtward.grows h) hscope' ?_
    rwa [Scope.size_slots_congr hshape]

@[simp] theorem size_openScope (store : Store) (shape : Shape) (parent : Option ScopeId) :
    (store.openScope shape parent).2.scopes.size = store.scopes.size + 1 := by
  simp [openScope]

@[simp] theorem size_write (store : Store) (cell : Cell) (value : Value) :
    (store.write cell value).scopes.size = store.scopes.size := by
  cases cell <;> simp [write]

/-- The new scope has the next number. -/
theorem getElem?_openScope (store : Store) (shape : Shape) (parent : Option ScopeId) :
    (store.openScope shape parent).2.scopes[store.scopes.size]? = some (.ofShape shape parent) := by
  simp [openScope]

/-! ## Reading -/

theorem lookup_insert (globals : Globals) (name other : String) (value : Value) :
    (globals.insert name value).lookup other =
      if other = name then some value else globals.lookup other := by
  rw [Globals.insert, List.lookup_cons]
  by_cases h : other = name
  · rw [if_pos h, h, beq_self_eq_true]
  · rw [if_neg h, beq_false_of_ne h]
    induction globals with
    | nil => rfl
    | cons entry rest ih =>
      obtain ⟨key, old⟩ := entry
      by_cases hk : key = name
      · have hne : other ≠ key := fun he => h (he.trans hk)
        simp only [List.filter_cons, hk, bne_self_eq_false, Bool.false_eq_true, if_false]
        rw [List.lookup_cons, ← hk, beq_false_of_ne hne]
        rw [hk]
        exact ih
      · simp only [List.filter_cons, bne_iff_ne, ne_eq, hk, not_false_eq_true, if_true]
        rw [List.lookup_cons, List.lookup_cons]
        cases other == key with
        | true => rfl
        | false => exact ih

/-- A scope that was just opened holds nothing. -/
theorem read_openScope (store : Store) (shape : Shape) (parent : Option ScopeId) (cell : Cell) :
    (store.openScope shape parent).2.read cell = store.read cell := by
  cases cell with
  | global name => rfl
  | slot id index slotClass =>
    show ((store.scopes.push _)[id]?.bind _).join = _
    rw [Array.getElem?_push]
    by_cases hid : id = store.scopes.size
    · rw [if_pos hid, read, hid, Array.getElem?_eq_none (Nat.le_refl _)]
      cases slotClass <;> simp only [Scope.slots, Scope.ofShape, Array.getElem?_replicate,
        Option.bind_some, Option.bind_none, Option.join_none] <;> split <;> rfl
    · rw [if_neg hid]
      rfl

theorem read_write_of_ne (store : Store) {cell other : Cell} (value : Value) (h : other ≠ cell) :
    (store.write cell value).read other = store.read other := by
  cases cell with
  | global name =>
    cases other with
    | slot id index slotClass => rfl
    | global key =>
      show (store.globals.insert name value).lookup key = store.globals.lookup key
      rw [lookup_insert, if_neg (fun hk => h (by rw [hk]))]
  | slot target i c =>
    cases other with
    | global key => rfl
    | slot id j d =>
      show ((store.scopes.modify target _)[id]?.bind _).join = (store.scopes[id]?.bind _).join
      rw [Array.getElem?_modify]
      by_cases hid : target = id
      · rw [if_pos hid]
        cases store.scopes[id]? with
        | none => rfl
        | some scope =>
          simp only [Option.map_some, Option.bind_some, Scope.slots_write]
          by_cases hd : d = c
          · have hij : i ≠ j := fun hij => h (by rw [hid, hij, hd])
            rw [if_pos hd, Array.getElem?_setIfInBounds_ne hij]
          · rw [if_neg hd]
      · rw [if_neg hid]

/-- A value that is read after a write was written or was there before. -/
theorem read_write {store : Store} {cell other : Cell} {value found : Value}
    (h : (store.write cell value).read other = some found) :
    other = cell ∧ found = value ∨ store.read other = some found := by
  by_cases hc : other = cell
  · subst hc
    cases other with
    | global name =>
      have h : (store.globals.insert name value).lookup name = some found := h
      rw [lookup_insert, if_pos rfl] at h
      cases h
      exact .inl ⟨rfl, rfl⟩
    | slot id i c =>
      have h : ((store.scopes.modify id _)[id]?.bind _).join = some found := h
      rw [Array.getElem?_modify, if_pos rfl] at h
      cases hs : store.scopes[id]? with
      | none => rw [hs] at h; cases h
      | some scope =>
        rw [hs] at h
        simp only [Option.map_some, Option.bind_some, Scope.slots_write, if_true] at h
        rw [Array.getElem?_setIfInBounds, if_pos rfl] at h
        split at h
        · cases h
          exact .inl ⟨rfl, rfl⟩
        · cases h
  · rw [read_write_of_ne store value hc] at h
    exact .inr h

/-- What a place is read as stands in the cell that it denotes. -/
theorem read_of_lookup {store : Store} {id : ScopeId} {place : Place} {name : String} {value : Value}
    (h : store.lookup id place name = .ok value) :
    ∃ cell, store.cell? id place name = some cell ∧ store.read cell = some value := by
  unfold lookup at h
  split at h
  · cases h
  · rename_i cell hcell
    refine ⟨cell, hcell, ?_⟩
    cases hread : store.read cell with
    | none =>
      rw [hread] at h
      cases cell <;> cases h
    | some found =>
      rw [hread] at h
      cases h
      rfl

end Store

end SlotScript
