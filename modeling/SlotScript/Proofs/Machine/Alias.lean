import SlotScript.Proofs.Machine.Record

/-!
# Reads and writes of one cell

Scopes share the scopes around them, so one slot is reached from many scopes and at many distances. All
scopes share the table of global names.

**Theorem (`Store.lookup_assign`).** After an assignment, a place is read as the new value if it denotes the
cell that was assigned, and as it was before if it does not. Two places denote one cell if they name the
same slot of the same class, and their numbers of links lead from their scopes to the same scope, or if both
are free and have the same name (`Store.SameCell`). An assignment fails just if its place denotes no cell,
and then the machine stops with the store as it was.

The store may be any: its scopes need not have been opened by a program, and its places need not have been
resolved. A write moves no scope and no link (`Store.grows_write`, `Store.grows_of_write`), so places denote
after it what they denoted before.
-/

namespace SlotScript

namespace Store

/-- Two places, each seen from a scope of its own, are the same slot or the same global name. -/
inductive SameCell (store : Store) : ScopeId → Place → String → ScopeId → Place → String → Prop
  | slot {id other target : ScopeId} {distance far index : Nat} {slotClass : SlotClass} {name key : String} :
      store.Outward distance id target → store.Outward far other target →
      SameCell store id (.slot distance index slotClass) name other (.slot far index slotClass) key
  | global {id other : ScopeId} {name : String} : SameCell store id .global name other .global name

/-! ## What two places denote -/

/-- Two places are the same slot or name if they denote the same cell. -/
theorem sameCell_iff {store : Store} {id other : ScopeId} {place seen : Place} {name key : String}
    {cell : Cell} (h : store.Denotes id place name cell) :
    store.SameCell other seen key id place name ↔ store.Denotes other seen key cell := by
  constructor
  · rintro (⟨houtward, hfar⟩ | _)
    · obtain ⟨htarget, hscope, hindex⟩ := h
      obtain rfl := hfar.unique htarget
      exact .slot houtward hscope hindex
    · cases h
      exact .global
  · intro hother
    cases h with
    | slot htarget hscope hindex =>
      cases hother with
      | slot houtward _ _ => exact .slot houtward htarget
    | global =>
      cases hother
      exact .global

/-! ## Writing -/

/-- A write adds no scope, and changes no size and no link. -/
theorem grows_of_write (store : Store) (cell : Cell) (value : Value) :
    (store.write cell value).Grows store := by
  intro id scope h
  have hlt : id < store.scopes.size := by
    rw [← size_write store cell value]
    exact (Array.getElem?_eq_some_iff.mp h).1
  obtain ⟨scope', hscope', hshape, hparent⟩ :=
    store.grows_write cell value id _ (Array.getElem?_eq_getElem hlt)
  obtain rfl : scope = scope' := Option.some.inj (h.symm.trans hscope')
  exact ⟨_, Array.getElem?_eq_getElem hlt, hshape.symm, hparent.symm⟩

/-- Places denote after a write what they denoted before. -/
theorem cell?_write (store : Store) (cell : Cell) (value : Value) (id : ScopeId) (place : Place)
    (name : String) : (store.write cell value).cell? id place name = store.cell? id place name := by
  ext other
  constructor
  · exact fun h => (store.grows_of_write cell value).cell? h
  · exact fun h => (store.grows_write cell value).cell? h

/-- A cell that a place denotes holds what was written into it. -/
theorem Denotes.read_write {store : Store} {id : ScopeId} {place : Place} {name : String} {cell : Cell}
    (h : store.Denotes id place name cell) (value : Value) :
    (store.write cell value).read cell = some value := by
  cases h with
  | global =>
    show (store.globals.insert name value).lookup name = some value
    rw [lookup_insert, if_pos rfl]
  | @slot target _ index slotClass _ scope _ hscope hindex =>
    show ((store.scopes.modify target _)[target]?.bind _).join = some value
    rw [Array.getElem?_modify, if_pos rfl, hscope]
    simp only [Option.map_some, Option.bind_some, Scope.slots_write, if_true]
    rw [Array.getElem?_setIfInBounds, if_pos rfl, if_pos hindex]
    rfl

/-- A place is read as what its cell holds. -/
theorem lookup_congr {store after : Store} {id : ScopeId} {place : Place} {name : String}
    (hcell : after.cell? id place name = store.cell? id place name)
    (hread : ∀ cell, store.cell? id place name = some cell → after.read cell = store.read cell) :
    after.lookup id place name = store.lookup id place name := by
  rw [lookup, lookup, hcell]
  cases h : store.cell? id place name with
  | none => rfl
  | some cell => simp only [hread cell h]

theorem assign_eq_ok_iff {store after : Store} {id : ScopeId} {place : Place} {name : String}
    {value : Value} :
    store.assign id place name value = .ok after ↔
      ∃ cell, store.Denotes id place name cell ∧ after = store.write cell value := by
  rw [assign]
  cases h : store.cell? id place name with
  | none => simp [← cell?_eq_some_iff, h]
  | some cell => simp [← cell?_eq_some_iff, h, eq_comm]

/-- An assignment fails only if its place denotes nothing. -/
theorem assign_eq_error {store : Store} {id : ScopeId} {place : Place} {name : String} {value : Value}
    {error : AccessError} (h : store.assign id place name value = .error error) : error = .badAddress := by
  rw [assign] at h
  split at h
  · cases h
    rfl
  · cases h

/-- The machine assigns as the store does, and stops with the store as it was if that fails. -/
theorem writeVar_eq (store : Store) (id : ScopeId) (place : Place) (name : String) (value : Value)
    (span : Span) (stack : List Waiting) :
    Machine.writeVar name place value id span stack store =
      match store.assign id place name value with
      | .ok after => .value value stack after
      | .error error => .raise (error.fault name) (some span) store := by
  rw [Machine.writeVar, assign]
  cases store.cell? id place name <;> rfl

/-- **A read sees the last write to its cell.** -/
theorem lookup_assign (store : Store) (id other : ScopeId) (place seen : Place) (name key : String)
    (value : Value) :
    (∀ after, store.assign id place name value = .ok after →
      (store.SameCell other seen key id place name → after.lookup other seen key = .ok value) ∧
      (¬ store.SameCell other seen key id place name →
        after.lookup other seen key = store.lookup other seen key)) ∧
    ((∃ after, store.assign id place name value = .ok after) ↔ ∃ cell, store.Denotes id place name cell) ∧
    ∀ error, store.assign id place name value = .error error → ∀ span stack,
      Machine.writeVar name place value id span stack store =
        .failed ⟨.impossible .badAddress, some span⟩ store := by
  refine ⟨fun after hafter => ?_, ⟨?_, ?_⟩, fun error herror span stack => ?_⟩
  · obtain ⟨cell, hcell, rfl⟩ := assign_eq_ok_iff.mp hafter
    have hkept := cell?_write store cell value other seen key
    constructor
    · intro hsame
      have hseen := cell?_eq_some_iff.mpr ((sameCell_iff hcell).mp hsame)
      simp only [lookup, hkept, hseen, hcell.read_write]
    · intro hdiffer
      refine lookup_congr hkept fun found hfound => read_write_of_ne store value ?_
      rintro rfl
      exact hdiffer ((sameCell_iff hcell).mpr (cell?_eq_some_iff.mp hfound))
  · rintro ⟨after, hafter⟩
    obtain ⟨cell, hcell, -⟩ := assign_eq_ok_iff.mp hafter
    exact ⟨cell, hcell⟩
  · rintro ⟨cell, hcell⟩
    exact ⟨_, assign_eq_ok_iff.mpr ⟨cell, hcell, rfl⟩⟩
  · rw [writeVar_eq, herror, assign_eq_error herror]
    rfl

/-- Two scopes beside each other in the program's, and a third in the first of them. -/
def siblings : Store where
  scopes := #[⟨.program, #[some (.int 1)], #[some (.int 5)], none⟩, ⟨.function, #[], #[], some 0⟩,
    ⟨.function, #[], #[], some 0⟩, ⟨.body, #[], #[], some 1⟩]

/-- The third scope writes a variable of the program's scope and the second reads it. The constant with the
same number stays as it was, and so does all else when a scope that is not there is written. -/
theorem lookup_assign_siblings :
    ∃ after, siblings.assign 3 (.slot 2 0 .var) "x" (.int 7) = .ok after ∧
      after.lookup 2 (.slot 1 0 .var) "y" = .ok (.int 7) ∧
      after.lookup 2 (.slot 1 0 .const) "x" = .ok (.int 5) ∧
      siblings.assign 3 (.slot 3 0 .var) "x" (.int 7) = .error .badAddress ∧
      Machine.writeVar "x" (.slot 3 0 .var) (.int 7) 3 ⟨0, 5⟩ [] siblings =
        .failed ⟨.impossible .badAddress, some ⟨0, 5⟩⟩ siblings := by
  have hinner : siblings.Outward 2 3 0 := .next rfl rfl (.next rfl rfl .here)
  have houter : siblings.Outward 1 2 0 := .next rfl rfl .here
  have hconst : ¬ siblings.SameCell 2 (.slot 1 0 .const) "x" 3 (.slot 2 0 .var) "x" := nofun
  have hmissing : siblings.assign 3 (.slot 3 0 .var) "x" (.int 7) = .error .badAddress := rfl
  refine ⟨_, rfl, ?_, ?_, hmissing, ?_⟩
  · exact ((lookup_assign siblings 3 2 (.slot 2 0 .var) (.slot 1 0 .var) "x" "y" (.int 7)).1 _ rfl).1
      (.slot houter hinner)
  · exact ((lookup_assign siblings 3 2 (.slot 2 0 .var) (.slot 1 0 .const) "x" "x" (.int 7)).1 _ rfl).2
      hconst
  · exact (lookup_assign siblings 3 2 (.slot 3 0 .var) .global "x" "x" (.int 7)).2.2 _ hmissing ⟨0, 5⟩ []

end Store

end SlotScript
