import Mathlib.Tactic.Tauto
import SlotScript.Machine.Step
import SlotScript.Proofs.Machine.Growth
import SlotScript.Proofs.Machine.Session

/-!
# What a step does to the store

A step opens scopes, writes cells and counts functions, one after the other, and does nothing else to
the store. `Store.Becomes` says so, and it lists the entries of the table of global names that are
written on the way.

**Theorem (`Machine.becomes_step`).** The only entries that a step writes are those of `Machine.entries`:
the target of an assignment whose place is the table, and the name of a function, if its place is the
table or if it is defined in the program's own scope.

What holds of every single update holds of a step. So a scope keeps its kind, its link and its number of
slots, a cell that has a value keeps having one (`Store.Becomes.keeps`), and a name enters the table only
if the step writes its entry (`Store.Becomes.mem_keys`).
-/

namespace SlotScript

/-! ## Names with an entry -/

/-- The names that have an entry in the table of global names. -/
def Store.keys (store : Store) : List String := store.globals.map Prod.fst

/-- The name whose entry a cell is. -/
def Cell.entry? : Cell → Option String
  | .slot .. => none
  | .global name => some name

theorem Globals.mem_insert (globals : Globals) (name key : String) (value : Value) :
    key ∈ (globals.insert name value).map Prod.fst ↔ key = name ∨ key ∈ globals.map Prod.fst := by
  rw [Globals.insert, List.map_cons, List.mem_cons]
  by_cases h : key = name
  · simp [h]
  · have hfilter : key ∈ (globals.filter (·.1 != name)).map Prod.fst ↔ key ∈ globals.map Prod.fst := by
      simp only [List.mem_map, List.mem_filter, bne_iff_ne]
      constructor
      · rintro ⟨entry, ⟨hentry, -⟩, rfl⟩
        exact ⟨entry, hentry, rfl⟩
      · rintro ⟨entry, hentry, rfl⟩
        exact ⟨entry, ⟨hentry, h⟩, rfl⟩
    rw [hfilter]

theorem Globals.mem_ofList (entries : List (String × Value)) (key : String) :
    key ∈ (Globals.ofList entries).map Prod.fst ↔ key ∈ entries.map Prod.fst := by
  suffices h : ∀ globals : Globals,
      key ∈ (entries.foldl (fun globals entry => Globals.insert globals entry.1 entry.2) globals).map
        Prod.fst ↔ key ∈ globals.map Prod.fst ∨ key ∈ entries.map Prod.fst by
    refine (h []).trans (or_iff_right ?_)
    simp
  induction entries with
  | nil => simp
  | cons entry rest ih =>
    intro globals
    rw [List.foldl_cons, ih, Globals.mem_insert, List.map_cons, List.mem_cons]
    tauto

namespace Store

theorem mem_keys_write (store : Store) (cell : Cell) (value : Value) (key : String) :
    key ∈ (store.write cell value).keys ↔ cell.entry? = some key ∨ key ∈ store.keys := by
  cases cell with
  | slot id index slotClass => simp [write, keys, Cell.entry?]
  | global name =>
    rw [keys, write, Globals.mem_insert, Cell.entry?, Option.some_inj, eq_comm]
    rfl

theorem mem_keys_of_read {store : Store} {key : String} {value : Value}
    (h : store.read (.global key) = some value) : key ∈ store.keys := by
  have hmem : ∀ globals : Globals, globals.lookup key = some value → key ∈ globals.map Prod.fst := by
    intro globals hlookup
    induction globals with
    | nil => cases hlookup
    | cons entry rest ih =>
      rw [List.lookup_cons] at hlookup
      by_cases hkey : key = entry.1
      · simp [hkey]
      · rw [beq_false_of_ne hkey] at hlookup
        exact List.mem_cons_of_mem _ (ih hlookup)
  exact hmem store.globals h

theorem mem_keys_of_lookup {store : Store} {id : ScopeId} {key : String} {value : Value}
    (h : store.lookup id .global key = .ok value) : key ∈ store.keys := by
  cases hread : store.read (.global key) with
  | none => simp [lookup, cell?, hread] at h
  | some found => exact mem_keys_of_read hread

/-- A place that is a slot denotes no entry of the table. -/
theorem entry?_of_cell? {store : Store} {id : ScopeId} {place : Place} {name key : String} {cell : Cell}
    (h : store.cell? id place name = some cell) (hkey : cell.entry? = some key) :
    place = .global ∧ key = name := by
  cases cell?_eq_some_iff.mp h with
  | slot => cases hkey
  | global => exact ⟨rfl, (Option.some.inj hkey).symm⟩

/-- What a place denotes depends on the scopes alone. -/
theorem cell?_congr {store other : Store} (h : other.scopes = store.scopes) (id : ScopeId) (place : Place)
    (name : String) : other.cell? id place name = store.cell? id place name := by
  have hancestor : ∀ distance id, other.ancestor distance id = store.ancestor distance id := by
    intro distance
    induction distance with
    | zero => exact fun _ => rfl
    | succ distance ih =>
      intro id
      simp only [ancestor, h, ih]
  cases place with
  | unresolved | global => rfl
  | slot distance index slotClass => simp only [cell?, hancestor, h]

/-! ## Updates -/

/-- The store becomes another one by single updates, which write these entries. -/
inductive Becomes : List String → Store → Store → Prop
  | same {store : Store} : Becomes [] store store
  /-- A scope is opened. -/
  | openScope {names : List String} {store after : Store} (shape : Shape) (parent : Option ScopeId) :
    Becomes names (store.openScope shape parent).2 after → Becomes names store after
  /-- A cell is written. -/
  | write {names : List String} {store after : Store} (cell : Cell) (value : Value) :
    Becomes names (store.write cell value) after → Becomes (cell.entry?.toList ++ names) store after
  /-- A function is counted. -/
  | count {names : List String} {store after : Store} :
    Becomes names { store with closures := store.closures + 1 } after → Becomes names store after

/-- What was there is still there: every scope with its kind, its link and its number of slots, and a
value in every cell that had one. -/
structure Keeps (store after : Store) : Prop where
  grows : store.Grows after
  /-- A cell that has a value keeps having one. -/
  filled : ∀ cell, (store.read cell).isSome → (after.read cell).isSome
  /-- A name that has an entry keeps having one. -/
  keys : store.keys ⊆ after.keys

variable {names : List String} {store middle after : Store}

theorem Keeps.refl (store : Store) : store.Keeps store :=
  ⟨.refl store, fun _ h => h, fun _ h => h⟩

theorem Keeps.trans (h : store.Keeps middle) (h' : middle.Keeps after) : store.Keeps after :=
  ⟨h.grows.trans h'.grows, fun cell hcell => h'.filled cell (h.filled cell hcell),
    fun _ hkey => h'.keys (h.keys hkey)⟩

theorem Keeps.size_le (h : store.Keeps after) : store.scopes.size ≤ after.scopes.size := by
  refine Nat.le_of_not_lt fun hlast => ?_
  obtain ⟨scope, hscope, -⟩ := h.grows _ _ (Array.getElem?_eq_getElem hlast)
  rw [Array.getElem?_eq_none (Nat.le_refl _)] at hscope
  cases hscope

theorem keeps_openScope (store : Store) (shape : Shape) (parent : Option ScopeId) :
    store.Keeps (store.openScope shape parent).2 where
  grows := store.grows_openScope shape parent
  filled cell h := by rwa [read_openScope]
  keys := fun _ h => h

/-- A write to a cell that is there leaves a value in it, and any other cell as it was. -/
theorem isSome_read_write {cell other : Cell} {value : Value} (h : (store.read other).isSome) :
    ((store.write cell value).read other).isSome := by
  by_cases hcell : other = cell
  · subst hcell
    cases other with
    | global name =>
      show ((store.globals.insert name value).lookup name).isSome
      rw [lookup_insert, if_pos rfl]
      rfl
    | slot id index slotClass =>
      show (((store.scopes.modify id _)[id]?.bind _).join).isSome
      rw [read] at h
      rw [Array.getElem?_modify, if_pos rfl]
      cases hscope : store.scopes[id]? with
      | none =>
        rw [hscope] at h
        cases h
      | some scope =>
        rw [hscope] at h
        simp only [Option.map_some, Option.bind_some, Scope.slots_write, if_true] at h ⊢
        -- a slot that has a value is a slot of the scope
        have hlt : index < (scope.slots slotClass).size := by
          cases hslot : (scope.slots slotClass)[index]? with
          | none =>
            rw [hslot] at h
            cases h
          | some slot => exact (Array.getElem?_eq_some_iff.mp hslot).1
        rw [Array.getElem?_setIfInBounds, if_pos rfl, if_pos hlt]
        rfl
  · rwa [read_write_of_ne store value hcell]

theorem keeps_write (store : Store) (cell : Cell) (value : Value) :
    store.Keeps (store.write cell value) where
  grows := store.grows_write cell value
  filled _ := isSome_read_write
  keys := by
    intro key hkey
    rw [mem_keys_write]
    exact Or.inr hkey

theorem Becomes.keeps (h : Becomes names store after) : store.Keeps after := by
  induction h with
  | same => exact .refl _
  | openScope shape parent _ ih => exact (keeps_openScope _ shape parent).trans ih
  | write cell value _ ih => exact (keeps_write _ cell value).trans ih
  | count _ ih => exact ⟨ih.grows, ih.filled, ih.keys⟩

/-- A name is in the table if it was there before or if its entry was written. -/
theorem Becomes.mem_keys (h : Becomes names store after) (key : String) :
    key ∈ after.keys ↔ key ∈ names ∨ key ∈ store.keys := by
  induction h with
  | same => simp
  | openScope shape parent _ ih => exact ih
  | write cell value _ ih =>
    rw [ih, mem_keys_write, List.mem_append, Option.mem_toList]
    tauto
  | count _ ih => exact ih

/-- The table stays as it is if no entry is written. -/
theorem Becomes.globals_eq (h : Becomes [] store after) : after.globals = store.globals := by
  generalize hnames : ([] : List String) = names at h
  induction h with
  | same => rfl
  | openScope shape parent _ ih => exact ih hnames
  | write cell value _ ih =>
    cases cell with
    | slot id index slotClass => exact ih hnames
    | global name => cases hnames
  | count _ ih => exact ih hnames

end Store

/-! ## One lemma for each function of the machine -/

open Store (Becomes)

namespace Machine

/-- The entry that a write to a variable makes. -/
def writeEntries (name : String) (place : Place) (scope : ScopeId) (store : Store) : List String :=
  ((store.cell? scope place name).bind Cell.entry?).toList

/-- The entry that an update of a variable makes: none if there is no old value, or if the operator
fails. -/
def updateEntries (name : String) (place : Place) (op : BinaryOp) (value : Value) (scope : ScopeId)
    (store : Store) : List String :=
  match store.lookup scope place name with
  | .error _ => []
  | .ok current =>
    match applyBinary current value op with
    | .error _ => []
    | .ok _ => writeEntries name place scope store

/-- The entries that a definition makes. -/
def defineEntries (name : String) (binding : Option VarRef) (scope : ScopeId) (store : Store) :
    List String :=
  match binding with
  | none => []
  | some var =>
    match store.cell? scope var.place name with
    | none => []
    | some cell =>
      cell.entry?.toList ++ if store.kindOf scope = some .program then [name] else []

/-- The entries of the table of global names that a step writes. -/
def entries (m : Machine) : List String :=
  match m.control, m.stack with
  | .eval (.define name binding _ _ _ _) scope, _ => defineEntries name binding scope m.store
  | .deliver (.normal _), .assign target place none scope _ :: _ =>
    writeEntries target place scope m.store
  | .deliver (.normal value), .assign target place (some op) scope _ :: _ =>
    updateEntries target place op value scope m.store
  | _, _ => []

variable {store : Store} {stack : List Waiting}

theorem becomes_writeVar {name : String} {place : Place} {value : Value} {scope : ScopeId} {span : Span} :
    Becomes (writeEntries name place scope store) store
      (writeVar name place value scope span stack store).store := by
  rw [writeVar, writeEntries]
  cases hcell : store.cell? scope place name with
  | none => exact .same
  | some cell => exact List.append_nil cell.entry?.toList ▸ .write cell value .same

theorem becomes_updateVar {name : String} {place : Place} {op : BinaryOp} {value : Value}
    {scope : ScopeId} {span : Span} : Becomes (updateEntries name place op value scope store) store
      (updateVar name place op value scope span stack store).store := by
  rw [updateVar, updateEntries]
  cases store.lookup scope place name with
  | error e => exact .same
  | ok current =>
    simp only
    cases applyBinary current value op with
    | error fault => exact .same
    | ok result => exact becomes_writeVar

/-- A parameter's slot is no entry of the table. -/
theorem entry?_param {frame : ScopeId} {slot : Nat} {name : String} {cell : Cell}
    (h : store.cell? frame (.slot 0 slot .var) name = some cell) : cell.entry? = none := by
  cases hentry : cell.entry? with
  | none => rfl
  | some key => cases (Store.entry?_of_cell? h hentry).1

theorem Becomes.param {names : List String} {after : Store} {frame : ScopeId} {slot : Nat}
    {name : String} {cell : Cell} (h : store.cell? frame (.slot 0 slot .var) name = some cell)
    (value : Value) (hafter : Becomes names (store.write cell value) after) :
    Becomes names store after := by
  have hwrite := Becomes.write cell value hafter
  rwa [entry?_param h] at hwrite

theorem becomes_bindParams {closure : Closure} {frame : ScopeId} {site : Option Span} {slot : Nat}
    {params : List Param} {args : List Value} :
    Becomes [] store (bindParams closure frame site stack slot params args store).store := by
  induction params generalizing slot args store with
  | nil => exact .same
  | cons param rest ih =>
    cases args with
    | nil =>
      rw [bindParams]
      split
      · exact .same
      · exact .same
    | cons arg args =>
      rw [bindParams]
      split
      · exact .same
      · rename_i cell hcell
        exact Becomes.param hcell arg ih

theorem becomes_call {closure : Closure} {args : List Value} {site : Option Span} :
    Becomes [] store (call closure args site stack store).store := by
  rw [call]
  split
  · exact .same
  · exact .openScope closure.frame (some closure.captured) becomes_bindParams

theorem becomes_callArgs {closure : Closure} {done : List Value} {args : List Node} {scope : ScopeId}
    {span : Span} : Becomes [] store (callArgs closure done args scope span stack store).store := by
  cases args with
  | nil => exact becomes_call
  | cons arg rest => exact .same

theorem becomes_define {name : String} {binding : Option VarRef} {params : List Param} {body : Node}
    {frame : Shape} {scope : ScopeId} {span : Span} :
    Becomes (defineEntries name binding scope store) store
      (define name binding params body frame scope span stack store).store := by
  refine .count ?_
  cases binding with
  | none => exact .same
  | some var =>
    have hkind : ∀ cell value, Store.kindOf (Store.write { store with closures := store.closures + 1 }
        cell value) scope = store.kindOf scope := by
      intro cell value
      cases hscope : store.scopes[scope]? with
      | none => cases cell <;> simp [Store.kindOf, Store.write, Array.getElem?_modify, hscope]
      | some found =>
        obtain ⟨found', hfound, hshape, -⟩ := Store.grows_write
          { store with closures := store.closures + 1 } cell value scope found hscope
        have hkind : found'.kind = found.kind := congrArg Shape.kind hshape
        rw [Store.kindOf, Store.kindOf, hfound, hscope, Option.map_some, Option.map_some, hkind]
    simp only [define, defineEntries]
    have hscopes : { store with closures := store.closures + 1 }.scopes = store.scopes := rfl
    rw [Store.cell?_congr hscopes]
    cases store.cell? scope var.place name with
    | none => exact .same
    | some cell =>
      refine .write cell (.function ⟨store.closures, name, params, body, frame, scope, span⟩) ?_
      simp only [hkind]
      split
      · exact .write (.global name) _ .same
      · exact .same

theorem becomes_loopRound {loop : Loop} {last : Value} :
    Becomes [] store (loopRound loop last stack store).store := by
  rw [loopRound]
  split
  · exact .same
  · exact .openScope loop.bodyShape (some loop.header) .same

theorem becomes_loopNext {loop : Loop} {last : Value} :
    Becomes [] store (loopNext loop last stack store).store := by
  rw [loopNext]
  split
  · exact .same
  · exact becomes_loopRound

theorem becomes_takeBranch {test : Bool} {yes : Node} {no : Option Node} {yesShape noShape : Shape}
    {scope : ScopeId} :
    Becomes [] store (takeBranch test yes no yesShape noShape scope stack store).store := by
  cases test with
  | true => exact .openScope yesShape (some scope) .same
  | false =>
    cases no with
    | none => exact .same
    | some no => exact .openScope noShape (some scope) .same

theorem becomes_start {node : Node} {scope : ScopeId} :
    Becomes (entries ⟨.eval node scope, stack, store⟩) store (start node scope stack store).store := by
  cases node with
  | ident name var span =>
    rw [start, readVar]
    split
    · exact .same
    · exact .same
  | binary op left right span =>
    rw [start]
    split
    · exact .same
    · exact .same
  | whileLoop cond body header bodyShape span =>
    let loop : Loop := ⟨some cond, none, body, bodyShape, store.scopes.size⟩
    have hround : Becomes [] (store.openScope header (some scope)).2
      (loopRound loop .null stack (store.openScope header (some scope)).2).store := becomes_loopRound
    exact .openScope header (some scope) hround
  | forLoop init cond step body header bodyShape span =>
    cases init with
    | some init => exact .openScope header (some scope) .same
    | none =>
      let loop : Loop := ⟨cond, step, body, bodyShape, store.scopes.size⟩
      have hround : Becomes [] (store.openScope header (some scope)).2
        (loopRound loop .null stack (store.openScope header (some scope)).2).store := becomes_loopRound
      exact .openScope header (some scope) hround
  | define name binding params body frame span => exact becomes_define
  | block body span => cases body <;> exact .same
  | ret value span => cases value <;> exact .same
  | _ => exact .same

theorem becomes_resume {waiting : Waiting} {value : Value} :
    Becomes (entries ⟨.deliver (.normal value), waiting :: stack, store⟩) store
      (resume waiting value stack store).store := by
  cases waiting with
  | unary op span =>
    rw [resume]
    cases applyUnary op value <;> exact .same
  | right op left span =>
    rw [resume]
    cases applyBinary left value op <;> exact .same
  | logicalLeft op leftSpan right scope =>
    cases value with
    | bool test =>
      simp only [resume, withTruth]
      split
      · exact .same
      · exact .same
    | _ => exact .same
  | logicalRight rightSpan => cases value <;> exact .same
  | assign target place op scope span =>
    cases op with
    | none => exact becomes_writeVar
    | some op => exact becomes_updateVar
  | branch condSpan yes no yesShape noShape scope =>
    cases value with
    | bool test => exact becomes_takeBranch
    | _ => exact .same
  | loopInit loop => exact becomes_loopRound
  | loopCond loop last condSpan =>
    cases value with
    | bool test =>
      cases test with
      | true => exact .openScope loop.bodyShape (some loop.header) .same
      | false => exact .same
    | _ => exact .same
  | loopBody loop last => exact becomes_loopNext
  | loopStep loop last => exact becomes_loopRound
  | callee calleeSpan args scope span =>
    cases value with
    | function closure => exact becomes_callArgs
    | _ => exact .same
  | argument closure done rest scope span => exact becomes_callArgs
  | default closure frame slot name rest site =>
    simp only [resume]
    split
    · exact .same
    · rename_i cell hcell
      exact Becomes.param hcell value becomes_bindParams
  | block rest scope => cases rest <;> exact .same
  | left | body | ret => exact .same

theorem becomes_unwind {waiting : Waiting} {flow : Flow} :
    Becomes [] store (unwind waiting flow stack store).store := by
  cases waiting with
  | loopBody loop last =>
    cases flow with
    | continueLoop => exact becomes_loopNext
    | _ => exact .same
  | default closure frame slot name rest site =>
    cases flow with
    | ret value =>
      have hresume : Becomes (entries ⟨.deliver (.normal value),
          .default closure frame slot name rest site :: stack, store⟩) store
          (resume (.default closure frame slot name rest site) value stack store).store := becomes_resume
      exact hresume
    | _ => exact .same
  | body site => cases flow <;> exact .same
  | _ => exact .same

/-- **A step writes no other entries than those of its record.** -/
theorem becomes_step (m : Machine) : Becomes m.entries m.store m.step.store := by
  obtain ⟨control, stack, store⟩ := m
  cases control with
  | eval node scope => exact becomes_start
  | deliver flow =>
    cases stack with
    | nil => cases flow <;> exact .same
    | cons waiting stack =>
      cases flow with
      | normal value => exact becomes_resume
      | _ => exact becomes_unwind

end Machine

end SlotScript
