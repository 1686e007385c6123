import SlotScript.Proofs.Flat.Resolve
import SlotScript.Proofs.Scope.Unmarked

/-!
# The trees of a resolved layout

Where the links of a layout make trees and no two trees share an entry, the walk in the arena resolves
these trees. It stops with the fault that `Program.resolve` finds, or leaves the resolved trees in
place of the ones it found (`ShapedLayout.Stores.resolve`).

**Theorem (`ShapedLayout.resolve_annotates`).** To resolve a program only fills in its places and
shapes, and forgets those it had. Layouts that only differ in them end the same way, with nothing else
changed; if they are resolved they are the same wherever they can be reached, and to resolve them once
more makes no difference. If a layout stores a program, all this is so for the program's trees too.

The walk `Mirrors` the resolver of trees node by node. While a node is under way (`Held`), the parts
that are done have their resolved trees and those that are to come the trees they had: a part overwrites
entries of its own only (`Within`), and the parts have no entries in common.
-/

namespace SlotScript.Flat

/-! ## What a part of the walk leaves alone -/

theorem mapM_congr {f g : α → Option β} {xs : List α} (h : ∀ x ∈ xs, f x = g x) :
    xs.mapM f = xs.mapM g := by
  induction xs with
  | nil => rfl
  | cons x xs ih =>
    rw [List.forall_mem_cons] at h
    rw [List.mapM_cons, List.mapM_cons, h.1, ih h.2]

/-- A node is made of what its links lead to. -/
theorem Entry.node?_congr {a a' : Arena} {get get' : Nat → Option Node} {entry : Entry}
    {links : List Nat} (hlinks : entry.cell.links? a = some links) (hsame : a'.links = a.links)
    (hsame' : a'.formals = a.formals) (hget : ∀ i ∈ links, get' i = get i) :
    entry.node? a' get' = entry.node? a get := by
  have hopt : ∀ link : Option Nat, (∀ i ∈ link, get' i = get i) →
      optional? get' link = optional? get link := by
    intro link hlink
    cases link with
    | none => rfl
    | some i => rw [optional?, optional?, hlink i rfl]
  obtain ⟨cell, span⟩ := entry
  cases cell <;> simp only [Entry.node?, hsame, hsame'] <;> simp only [Cell.links?] at hlinks
  case unary | binary | assign | whileLoop =>
    obtain rfl := Option.some.inj hlinks
    simp only [List.forall_mem_cons] at hget
    simp only [hget]
  case branch cond yes no _ _ =>
    obtain rfl := Option.some.inj hlinks
    simp only [List.forall_mem_cons, Option.mem_toList] at hget
    simp only [hget, hopt no hget.2.2]
  case forLoop =>
    obtain rfl := Option.some.inj hlinks
    simp only [List.forall_mem_append, Option.mem_toList, List.forall_mem_singleton] at hget
    rw [hopt _ hget.1.1.1, hopt _ hget.1.1.2, hopt _ hget.1.2, hget.2]
  case define =>
    obtain ⟨formals, hformals, rfl⟩ := Option.map_eq_some_iff.1 hlinks
    simp only [List.forall_mem_append, List.forall_mem_singleton] at hget
    have hparams : formals.mapM (Formal.param? get') = formals.mapM (Formal.param? get) := by
      refine mapM_congr fun formal hformal => ?_
      rw [Formal.param?, Formal.param?,
        hopt _ fun i hi => hget.1 i (List.mem_filterMap.2 ⟨formal, hformal, hi⟩)]
    simp only [hformals, Option.bind_eq_bind, Option.bind_some, hparams, hget.2]
  case call =>
    obtain ⟨args, hargs, rfl⟩ := Option.map_eq_some_iff.1 hlinks
    rw [List.forall_mem_cons] at hget
    simp only [hargs, Option.bind_eq_bind, Option.bind_some, mapM_congr hget.2, hget.1]
  case block =>
    simp only [hlinks, Option.bind_eq_bind, Option.bind_some, mapM_congr hget]
  case ret =>
    obtain rfl := Option.some.inj hlinks
    simp only [Option.mem_toList] at hget
    rw [hopt _ hget]

/-- Only entries in the set have changed, and those only in their places and shapes. -/
structure Within (D : Set Nat) (a a' : Arena) : Prop where
  unmarked : a'.unmarked = a.unmarked
  entry : ∀ i ∉ D, a'.entries[i]? = a.entries[i]?

namespace Within

variable {D E : Set Nat} {a a' a'' : Arena}

theorem refl (D : Set Nat) (a : Arena) : Within D a a := ⟨rfl, fun _ _ => rfl⟩

theorem trans (h : Within D a a') (h' : Within D a' a'') : Within D a a'' :=
  ⟨h'.unmarked.trans h.unmarked, fun i hi => (h'.entry i hi).trans (h.entry i hi)⟩

theorem mono (h : Within D a a') (hD : D ⊆ E) : Within E a a' :=
  ⟨h.unmarked, fun i hi => h.entry i fun hmem => hi (hD hmem)⟩

theorem links (h : Within D a a') : a'.links = a.links := (congrArg Arena.links h.unmarked :)

theorem formals (h : Within D a a') : a'.formals = a.formals := (congrArg Arena.formals h.unmarked :)

theorem cells (h : Within D a a') (link : Nat) : a'.cells link = a.cells link := by
  induction link using Nat.strongRecOn with
  | ind link ih =>
    rw [Arena.cells, Arena.cells, ← Arena.links?_unmarked, h.unmarked, Arena.links?_unmarked]
    congr 1
    refine List.flatMap_congr fun j _ => ?_
    split
    case isTrue hlt => exact ih j hlt
    case isFalse => rfl

/-- A tree that has no entry in the set is as it was. -/
theorem tree? (h : Within D a a') {link : Nat} {node : Node} (hnode : a.tree? link = some node)
    (hcells : ∀ i ∈ a.cells link, i ∉ D) : a'.tree? link = some node := by
  induction link using Nat.strongRecOn generalizing node with
  | ind link ih =>
    obtain ⟨links, hlinks, heq⟩ := Arena.cells_of_tree? hnode
    obtain ⟨links', hlinks', hdown⟩ := Arena.links?_of_tree? hnode
    obtain rfl : links = links' := Option.some.inj (hlinks.symm.trans hlinks')
    obtain ⟨entry, hentry, hnode⟩ := Arena.tree?_eq_some_iff.1 hnode
    rw [Arena.links?, hentry, Option.bind_some] at hlinks
    rw [heq, List.forall_mem_cons] at hcells
    refine Arena.tree?_eq_some_iff.2 ⟨entry, (h.entry link hcells.1).trans hentry, ?_⟩
    rw [Entry.node?_congr hlinks h.links h.formals fun j hj => ?_]
    · exact hnode
    · obtain ⟨hlt, n, hn⟩ := hdown j hj
      rw [if_pos hlt, if_pos hlt, hn]
      exact ih j hlt hn fun i hi => hcells.2 i (List.mem_flatMap.2 ⟨j, hj, hi⟩)

end Within

/-! ## Walks that follow the resolver of trees -/

/-- The walk ends as the resolver of trees does. -/
inductive Mirrors (D : Set Nat) (a : Arena) {α β : Type} (Post : α → β → Arena → Prop) :
    Except ScopeError α → Except Stop β × Arena → Prop
  | ok {x : α} {y : β} {a' : Arena} : Within D a a' → Post x y a' → Mirrors D a Post (.ok x) (.ok y, a')
  | fault {e : ScopeError} {a' : Arena} : Mirrors D a Post (.error e) (.error (.fault e), a')

namespace Mirrors

variable {α β γ δ : Type} {D E : Set Nat} {a : Arena} {P : α → β → Arena → Prop}
  {Q : γ → δ → Arena → Prop} {t : Except ScopeError α} {f : Walk β} 

theorem bind {u : α → Except ScopeError γ} {g : β → Walk δ} (h : Mirrors D a P t (f a))
    (hg : ∀ x y a', Within D a a' → P x y a' → Mirrors D a' Q (u x) (g y a')) :
    Mirrors D a Q (t >>= u) ((f >>= g) a) := by
  generalize hf : f a = result at h
  cases h with
  | fault =>
    rw [Walk.bind_error hf]
    exact .fault
  | @ok x y a' hwithin hpost =>
    rw [Walk.bind_ok hf]
    have hlast := hg x y a' hwithin hpost
    show Mirrors D a Q (u x) (g y a')
    generalize u x = t' at hlast ⊢
    generalize g y a' = result' at hlast ⊢
    cases hlast with
    | fault => exact .fault
    | ok hwithin' hpost' => exact .ok (hwithin.trans hwithin') hpost'

/-- The resolver of trees puts a node together where the walk has nothing to do. -/
theorem map {u : α → γ} {Q : γ → β → Arena → Prop} (h : Mirrors D a P t (f a))
    (hu : ∀ x y a', Within D a a' → P x y a' → Q (u x) y a') :
    Mirrors D a Q (t >>= fun x => pure (u x)) (f a) := by
  generalize f a = result at h ⊢
  cases h with
  | fault => exact .fault
  | ok hwithin hpost => exact .ok hwithin (hu _ _ _ hwithin hpost)

theorem mono {P' : α → β → Arena → Prop} (h : Mirrors D a P t (f a)) (hD : D ⊆ E)
    (hP : ∀ x y a', Within D a a' → P x y a' → P' x y a') : Mirrors E a P' t (f a) := by
  generalize f a = result at h ⊢
  cases h with
  | fault => exact .fault
  | ok hwithin hpost => exact .ok (hwithin.mono hD) (hP _ _ _ hwithin hpost)

theorem check (result : Except ScopeError α) :
    Mirrors D a (fun x y a' => y = x ∧ a' = a) result (Walk.check result a) := by
  cases result with
  | ok x => exact .ok (.refl D a) ⟨rfl, rfl⟩
  | error e => exact .fault

theorem read {get : Arena → Option β} {g : β → Walk δ} {x : β} {t : Except ScopeError γ}
    (hget : get a = some x) (hg : Mirrors D a Q t (g x a)) :
    Mirrors D a Q t ((Walk.read get >>= g) a) := by
  rwa [Walk.bind_ok (Walk.read_some hget)]

end Mirrors

/-! ## Parts -/

section Parts

variable {get : Nat → Option Node}

/-- What can be found under a link. -/
def Arena.below (a : Arena) (link : Nat) : Nat → Option Node :=
  fun i => if i < link then a.tree? i else none

theorem optional?_zip {link : Option Nat} {node : Option Node} :
    optional? get link = some node ↔ link.isSome = node.isSome ∧
      ∀ part ∈ link.toList.zip node.toList, get part.1 = some part.2 := by
  cases link <;> cases node <;> simp [optional?]

theorem mapM_zip {links : List Nat} {nodes : List Node} :
    links.mapM get = some nodes ↔ links.length = nodes.length ∧
      ∀ part ∈ links.zip nodes, get part.1 = some part.2 := by
  rw [mapM_eq_some_iff, List.forall₂_iff_zip]
  simp only [Prod.forall]

/-- The parameters stand for these entries, but for what their defaults are. -/
def Fit (formal : Formal) (param : Param) : Prop :=
  formal.name = param.name ∧ formal.span = param.span ∧ formal.default.isSome = param.default.isSome

/-- The defaults of parameters with the links to them. -/
def defaultParts : List Formal → List Param → List (Nat × Node)
  | formal :: formals, param :: params =>
    formal.default.toList.zip param.default.toList ++ defaultParts formals params
  | _, _ => []

theorem param?_zip {formal : Formal} {param : Param} :
    formal.param? get = some param ↔ Fit formal param ∧
      ∀ part ∈ formal.default.toList.zip param.default.toList, get part.1 = some part.2 := by
  obtain ⟨name, link, span⟩ := formal
  obtain ⟨name', node, span'⟩ := param
  have hoption : optional? get link = some node ↔ _ := optional?_zip
  simp only [Formal.param?, Option.map_eq_some_iff, Param.mk.injEq, Fit, Param.name, Param.span,
    Param.default]
  constructor
  · rintro ⟨node, hnode, rfl, rfl, rfl⟩
    exact ⟨⟨rfl, rfl, (hoption.1 hnode).1⟩, (hoption.1 hnode).2⟩
  · rintro ⟨⟨rfl, rfl, hsome⟩, hparts⟩
    exact ⟨node, hoption.2 ⟨hsome, hparts⟩, rfl, rfl, rfl⟩

theorem params_zip {formals : List Formal} {params : List Param} :
    formals.mapM (Formal.param? get) = some params ↔ List.Forall₂ Fit formals params ∧
      ∀ part ∈ defaultParts formals params, get part.1 = some part.2 := by
  rw [mapM_eq_some_iff]
  induction formals generalizing params with
  | nil => 
    rw [List.forall₂_nil_left_iff, List.forall₂_nil_left_iff]
    exact ⟨fun h => ⟨h, by simp [defaultParts]⟩, And.left⟩
  | cons formal formals ih =>
    cases params with
    | nil => simp
    | cons param params =>
      rw [List.forall₂_cons, List.forall₂_cons, ih, param?_zip, defaultParts, List.forall_mem_append]
      tauto

end Parts

theorem fst_zip_option {link : Option Nat} {node : Option Node} (h : link.isSome = node.isSome) :
    (link.toList.zip node.toList).map Prod.fst = link.toList := by
  cases link <;> cases node <;> first | rfl | cases h

theorem fst_defaultParts {formals : List Formal} {params : List Param}
    (h : List.Forall₂ Fit formals params) :
    (defaultParts formals params).map Prod.fst = formals.filterMap Formal.default := by
  induction h with
  | nil => rfl
  | @cons formal param formals params hfit _ ih =>
    rw [defaultParts, List.map_append, fst_zip_option hfit.2.2, ih, List.filterMap_cons]
    cases formal.default <;> rfl

/-! ## Nodes that are under way -/

/-- The node at a link is under way. The parts in `done` are resolved, those in `todo` are to come, and
its own entry is as it was. -/
structure Held (D : Set Nat) (link : Nat) (entry : Option Entry) (links : List Nat) (a : Arena)
    (done todo : List (Nat × Node)) : Prop where
  own : a.entries[link]? = entry
  parts : (done ++ todo).map Prod.fst = links
  tree : ∀ part ∈ done ++ todo, a.tree? part.1 = some part.2
  down : ∀ i ∈ links, i < link
  apart : (link :: links.flatMap a.cells).Nodup
  inside : ∀ i ∈ link :: links.flatMap a.cells, i ∈ D

/-- The tree at the link has this entry at its root, and no entry twice. -/
structure Rooted (a : Arena) (link : Nat) (entry : Entry) (node : Node) : Prop where
  own : a.entries[link]? = some entry
  node : entry.node? a (a.below link) = some node
  nodup : (a.cells link).Nodup

/-- The node is resolved, and the arena has the tree. -/
def Resolved (link : Nat) (result : Node × Context) (here : Context) (a : Arena) : Prop :=
  here = result.2 ∧ a.tree? link = some result.1

/-- In an arena with a tree, the nodes under a link are resolved as the tree is. -/
def Follows (visit : Visit) (link : Nat) : Prop :=
  ∀ (inLoop : Bool) (outer : List Context) (here : Context) (node : Node) (a : Arena),
    a.tree? link = some node → (a.cells link).Nodup →
    Mirrors {i | i ∈ a.cells link} a (Resolved link) (node.resolve inLoop outer here)
      (visit inLoop outer here link a)

namespace Held

variable {D : Set Nat} {link : Nat} {own : Option Entry} {entry : Entry} {links : List Nat} {a : Arena}
  {done todo : List (Nat × Node)}

theorem start {node : Node} (hroot : Rooted a link entry node) (parts : List (Nat × Node))
    (hlinks : entry.cell.links? a = some (parts.map Prod.fst))
    (hparts : ∀ part ∈ parts, a.below link part.1 = some part.2) :
    Held {i | i ∈ a.cells link} link (some entry) (parts.map Prod.fst) a [] parts := by
  have htrees : ∀ part ∈ parts, part.1 < link ∧ a.tree? part.1 = some part.2 := by
    intro part hpart
    have hif := hparts part hpart
    unfold Arena.below at hif
    split at hif
    case isTrue hlt => exact ⟨hlt, hif⟩
    case isFalse => cases hif
  obtain ⟨hentry, hnode, hnodup⟩ := hroot
  obtain ⟨links', hlinks', hcells⟩ :=
    Arena.cells_of_tree? (Arena.tree?_eq_some_iff.2 ⟨entry, hentry, hnode⟩)
  rw [Arena.links?, hentry, Option.bind_some, hlinks] at hlinks'
  obtain rfl := Option.some.inj hlinks'
  rw [hcells] at hnodup
  refine ⟨hentry, rfl, fun part hpart => (htrees part hpart).2, ?_, hnodup, ?_⟩
  · exact List.forall_mem_map.2 fun part hpart => (htrees part hpart).1
  · intro i hi
    show i ∈ a.cells link
    rwa [hcells]

/-- The next part is resolved. -/
theorem visit {visit : Visit} {i : Nat} {node : Node}
    (h : Held D link own links a done ((i, node) :: todo)) (hvisit : ∀ j < link, Follows visit j)
    (inLoop : Bool) (outer : List Context) (here : Context) :
    Mirrors D a (fun x y a' => y = x.2 ∧ Held D link own links a' (done ++ [(i, x.1)]) todo)
      (node.resolve inLoop outer here) (visit inLoop outer here i a) := by
  have hmem : (i, node) ∈ done ++ (i, node) :: todo := by simp
  have hi : i ∈ links := h.parts ▸ List.mem_map_of_mem hmem
  have hsplit : links = done.map Prod.fst ++ i :: todo.map Prod.fst := by
    rw [← h.parts, List.map_append, List.map_cons]
  have hapart := h.apart
  rw [List.nodup_cons] at hapart
  obtain ⟨hlink, hnodup⟩ := hapart
  have hcells : ∀ j ∈ a.cells i, j ∈ links.flatMap a.cells :=
    fun j hj => List.mem_flatMap.2 ⟨i, hi, hj⟩
  -- the other parts have no entry in common with this one
  have hother : ∀ part ∈ done ++ todo, ∀ j ∈ a.cells part.1, j ∉ a.cells i := by
    rw [hsplit, List.flatMap_append, List.flatMap_cons] at hnodup
    have hperm := (List.perm_append_comm_assoc _ _ _).nodup_iff.1 hnodup
    rw [← List.flatMap_append, ← List.map_append] at hperm
    intro part hpart j hj hj'
    exact List.disjoint_of_nodup_append hperm hj'
      (List.mem_flatMap.2 ⟨part.1, List.mem_map_of_mem hpart, hj⟩)
  have hfollows := hvisit i (h.down i hi) inLoop outer here node a (h.tree _ hmem)
    ((List.nodup_flatMap.1 hnodup).1 i hi)
  refine hfollows.mono (fun j hj => h.inside j (List.mem_cons_of_mem _ (hcells j hj))) ?_
  rintro ⟨node', _⟩ here' a' hwithin ⟨rfl, htree⟩
  have hsame : links.flatMap a'.cells = links.flatMap a.cells :=
    List.flatMap_congr fun j _ => hwithin.cells j
  refine ⟨rfl, ?_, ?_, ?_, h.down, hsame ▸ h.apart, hsame ▸ h.inside⟩
  · exact (hwithin.entry link fun hmem => hlink (hcells link hmem)).trans h.own
  · rw [hsplit]
    simp
  · intro part hpart
    rw [List.append_assoc, List.mem_append, List.singleton_append, List.mem_cons] at hpart
    rcases hpart with hpart | rfl | hpart
    · exact hwithin.tree? (h.tree part (by simp [hpart])) (hother part (by simp [hpart]))
    · exact htree
    · exact hwithin.tree? (h.tree part (by simp [hpart])) (hother part (by simp [hpart]))

theorem option {visit : Visit} {i : Option Nat} {node : Option Node}
    (h : Held D link own links a done (i.toList.zip node.toList ++ todo))
    (hsome : i.isSome = node.isSome) (hvisit : ∀ j < link, Follows visit j)
    (inLoop : Bool) (outer : List Context) (here : Context) :
    Mirrors D a (fun x y a' => y = x.2 ∧ i.isSome = x.1.isSome ∧
        Held D link own links a' (done ++ i.toList.zip x.1.toList) todo)
      (resolveOption inLoop outer here node) (visit.option inLoop outer here i a) := by
  cases i with
  | none =>
    cases node with
    | some node => cases hsome
    | none => exact .ok (.refl D a) ⟨rfl, rfl, (List.append_nil done).symm ▸ h⟩
  | some i =>
    cases node with
    | none => cases hsome
    | some node =>
      refine (h.visit hvisit inLoop outer here).map ?_
      rintro ⟨node', _⟩ here' a' - ⟨rfl, hheld⟩
      exact ⟨rfl, rfl, hheld⟩

theorem all {visit : Visit} {is : List Nat} {nodes : List Node}
    (h : Held D link own links a done (is.zip nodes ++ todo)) (hlength : is.length = nodes.length)
    (hvisit : ∀ j < link, Follows visit j) (inLoop : Bool) (outer : List Context) (here : Context) :
    Mirrors D a (fun x y a' => y = x.2 ∧ is.length = x.1.length ∧
        Held D link own links a' (done ++ is.zip x.1) todo)
      (resolveAll inLoop outer here nodes) (visit.all inLoop outer here is a) := by
  induction is generalizing nodes a done here with
  | nil =>
    cases nodes with
    | cons node nodes => cases hlength
    | nil => exact .ok (.refl D a) ⟨rfl, rfl, (List.append_nil done).symm ▸ h⟩
  | cons i is ih =>
    cases nodes with
    | nil => cases hlength
    | cons node nodes =>
      refine (h.visit hvisit inLoop outer here).bind ?_
      rintro ⟨node', _⟩ here' a' - ⟨rfl, hheld⟩
      refine (ih hheld (Nat.succ.inj hlength) here').map ?_
      rintro ⟨nodes', _⟩ here'' a'' - ⟨rfl, hlength', hheld'⟩
      rw [List.append_assoc] at hheld'
      exact ⟨rfl, congrArg Nat.succ hlength', hheld'⟩

theorem defaults {visit : Visit} {formals : List Formal} {params : List Param}
    (h : Held D link own links a done (defaultParts formals params ++ todo))
    (hfit : List.Forall₂ Fit formals params) (hvisit : ∀ j < link, Follows visit j)
    (inLoop : Bool) (outer : List Context) (here : Context) :
    Mirrors D a (fun x y a' => y = x.2 ∧ List.Forall₂ Fit formals x.1 ∧
        Held D link own links a' (done ++ defaultParts formals x.1) todo)
      (resolveParams inLoop outer here params) (visit.defaults inLoop outer here formals a) := by
  induction hfit generalizing a done here with
  | nil => exact .ok (.refl D a) ⟨rfl, .nil, (List.append_nil done).symm ▸ h⟩
  | @cons formal param formals params hfit _ ih =>
    obtain ⟨name, node, span⟩ := param
    obtain ⟨hname, hspan, hsome⟩ := hfit
    rw [defaultParts, List.append_assoc] at h
    refine (h.option hsome hvisit inLoop outer here).bind ?_
    rintro ⟨node', _⟩ here' a' - ⟨rfl, hsome', hheld⟩
    refine (ih hheld here').map ?_
    rintro ⟨params', _⟩ here'' a'' - ⟨rfl, hfit', hheld'⟩
    exact ⟨rfl, .cons ⟨hname, hspan, hsome'⟩ hfit', List.append_assoc .. ▸ hheld'⟩

/-- All parts are resolved, and the entry of the node has nothing to be filled in. -/
theorem finish {node : Node} (h : Held D link (some entry) links a done [])
    (hnode : ∀ get, (∀ part ∈ done, get part.1 = some part.2) → entry.node? a get = some node) :
    a.tree? link = some node := by
  refine Arena.tree?_eq_some_iff.2 ⟨entry, h.own, hnode _ fun part hpart => ?_⟩
  have hmem : part ∈ done ++ [] := by simpa using hpart
  rw [if_pos (h.down part.1 (h.parts ▸ List.mem_map_of_mem hmem)), h.tree part hmem]

/-- All parts are resolved, and the places and shapes of the node are filled in. -/
theorem write {cell : Cell} {node : Node} {here : Context} (h : Held D link (some entry) links a done [])
    (hcell : cell.unmarked = entry.cell.unmarked)
    (hnode : ∀ get, (∀ part ∈ done, get part.1 = some part.2) →
      (Entry.mk cell entry.span).node? a get = some node) :
    Mirrors D a (Resolved link) (pure (node, here))
      ((do Walk.write link cell; return here : Walk Context) a) := by
  have hblank : a.unmarked.entries[link]? = some entry.unmarked := by
    rw [← Arena.getElem?_unmarked rfl, h.own, Option.map_some]
  have hunmarked : (a.setCell link cell).unmarked = a.unmarked :=
    Arena.unmarked_setCell rfl hblank (hcell.trans entry.cell.unmarked_unmarked.symm)
  have hwithin : Within {link} a (a.setCell link cell) := by
    refine ⟨hunmarked, fun i hi => ?_⟩
    rw [Arena.getElem?_setCell, if_neg fun heq => hi heq.symm]
  have hown : (a.setCell link cell).entries[link]? = some ⟨cell, entry.span⟩ := by
    rw [Arena.getElem?_setCell, if_pos rfl, h.own, Option.map_some]
  refine .ok (hwithin.mono ?_) ⟨rfl, Arena.tree?_eq_some_iff.2 ⟨_, hown, hnode _ fun part hpart => ?_⟩⟩
  · rintro i rfl
    exact h.inside i List.mem_cons_self
  · have hmem : part ∈ done ++ [] := by simpa using hpart
    have hlinks : part.1 ∈ links := h.parts ▸ List.mem_map_of_mem hmem
    rw [if_pos (h.down part.1 hlinks)]
    refine hwithin.tree? (h.tree part hmem) ?_
    rintro i hi rfl
    exact (List.nodup_cons.1 h.apart).1 (List.mem_flatMap.2 ⟨part.1, hlinks, hi⟩)

end Held

/-! ## The walk of a tree -/

section Cells

variable {visit : Visit} {a : Arena} {link : Nat} {span : Span} {node : Node}

theorem assign_mirrors {target : String} {var : VarRef} {decl : DeclKind} {op : Option BinaryOp}
    {value : Nat} (h : Rooted a link ⟨.assign target var decl op value, span⟩ node)
    (hvisit : ∀ j < link, Follows visit j) (inLoop : Bool) (outer : List Context) (here : Context) :
    Mirrors {i | i ∈ a.cells link} a (Resolved link) (node.resolve inLoop outer here)
      (visit.entry inLoop outer here link ⟨.assign target var decl op value, span⟩ a) := by
  have hnode := h.node
  simp only [Entry.node?, Option.bind_eq_bind, Option.bind_eq_some_iff, Option.pure_def,
    Option.some.injEq] at hnode
  obtain ⟨v, hv, rfl⟩ := hnode
  have hheld := Held.start h [(value, v)] rfl (List.forall_mem_singleton.2 hv)
  have hwrite : ∀ {a' v' var'} (here : Context),
      Held {i | i ∈ a.cells link} link (some ⟨.assign target var decl op value, span⟩) [value] a'
        [(value, v')] [] →
      Mirrors {i | i ∈ a.cells link} a' (Resolved link)
        (pure (Node.assign target var' decl op v' span, here))
        ((do Walk.write link (.assign target var' decl op value); return here : Walk Context) a') := by
    intro a' v' var' here hheld
    refine hheld.write rfl fun get hget => ?_
    rw [List.forall_mem_singleton] at hget
    simp only [Entry.node?, hget]
    rfl
  cases decl with
  | var =>
    refine (hheld.visit hvisit inLoop outer (here.declare target .var).2).bind ?_
    rintro ⟨v', _⟩ here' a' - ⟨rfl, hheld⟩
    exact hwrite here' hheld
  | const =>
    refine (hheld.visit hvisit inLoop outer (here.declare target .const).2).bind ?_
    rintro ⟨v', _⟩ here' a' - ⟨rfl, hheld⟩
    exact hwrite here' hheld
  | plain =>
    refine (hheld.visit hvisit inLoop outer here).bind ?_
    rintro ⟨v', _⟩ here a' - ⟨rfl, hheld⟩
    refine (Mirrors.check (resolveTarget outer here target op span)).bind ?_
    rintro ⟨var', here⟩ _ _ - ⟨rfl, rfl⟩
    exact hwrite here hheld

theorem branch_mirrors {cond yes : Nat} {no : Option Nat} {yesShape noShape : Shape}
    (h : Rooted a link ⟨.branch cond yes no yesShape noShape, span⟩ node)
    (hvisit : ∀ j < link, Follows visit j) (inLoop : Bool) (outer : List Context) (here : Context) :
    Mirrors {i | i ∈ a.cells link} a (Resolved link) (node.resolve inLoop outer here)
      (visit.entry inLoop outer here link ⟨.branch cond yes no yesShape noShape, span⟩ a) := by
  have hnode := h.node
  simp only [Entry.node?, Option.bind_eq_bind, Option.bind_eq_some_iff, Option.pure_def,
    Option.some.injEq] at hnode
  obtain ⟨c, hc, y, hy, n, hn, rfl⟩ := hnode
  obtain ⟨hsome, hn⟩ := optional?_zip.1 hn
  have hheld := Held.start h ((cond, c) :: (yes, y) :: no.toList.zip n.toList)
    (by simp [Cell.links?, fst_zip_option hsome])
    (List.forall_mem_cons.2 ⟨hc, List.forall_mem_cons.2 ⟨hy, hn⟩⟩)
  refine (hheld.visit hvisit inLoop outer here).bind ?_
  rintro ⟨c', _⟩ here a' - ⟨rfl, hheld⟩
  refine (hheld.visit hvisit inLoop (here :: outer) (.fresh .body)).bind ?_
  rintro ⟨y', _⟩ yesScope a' - ⟨rfl, hheld⟩
  rw [← List.append_nil (no.toList.zip _)] at hheld
  refine (hheld.option hsome hvisit inLoop (here :: outer) (.fresh .body)).bind ?_
  rintro ⟨n', _⟩ noScope a' - ⟨rfl, hsome', hheld⟩
  refine hheld.write rfl fun get hget => ?_
  simp only [List.forall_mem_append, List.nil_append, List.forall_mem_singleton] at hget
  simp only [Entry.node?, hget, optional?_zip.2 ⟨hsome', hget.2⟩]
  rfl

theorem whileLoop_mirrors {cond body : Nat} {header bodyShape : Shape}
    (h : Rooted a link ⟨.whileLoop cond body header bodyShape, span⟩ node)
    (hvisit : ∀ j < link, Follows visit j) (inLoop : Bool) (outer : List Context) (here : Context) :
    Mirrors {i | i ∈ a.cells link} a (Resolved link) (node.resolve inLoop outer here)
      (visit.entry inLoop outer here link ⟨.whileLoop cond body header bodyShape, span⟩ a) := by
  have hnode := h.node
  simp only [Entry.node?, Option.bind_eq_bind, Option.bind_eq_some_iff, Option.pure_def,
    Option.some.injEq] at hnode
  obtain ⟨c, hc, b, hb, rfl⟩ := hnode
  have hheld := Held.start h [(cond, c), (body, b)] rfl
    (List.forall_mem_cons.2 ⟨hc, List.forall_mem_singleton.2 hb⟩)
  refine (hheld.visit hvisit inLoop (here :: outer) (.fresh .header)).bind ?_
  rintro ⟨c', _⟩ header a' - ⟨rfl, hheld⟩
  refine (hheld.visit hvisit true (header :: here :: outer) (.fresh .body)).bind ?_
  rintro ⟨b', _⟩ bodyScope a' - ⟨rfl, hheld⟩
  refine hheld.write rfl fun get hget => ?_
  simp only [List.forall_mem_append, List.nil_append, List.forall_mem_singleton] at hget
  simp only [Entry.node?, hget]
  rfl

theorem forLoop_mirrors {init cond step : Option Nat} {body : Nat} {header bodyShape : Shape}
    (h : Rooted a link ⟨.forLoop init cond step body header bodyShape, span⟩ node)
    (hvisit : ∀ j < link, Follows visit j) (inLoop : Bool) (outer : List Context) (here : Context) :
    Mirrors {i | i ∈ a.cells link} a (Resolved link) (node.resolve inLoop outer here)
      (visit.entry inLoop outer here link ⟨.forLoop init cond step body header bodyShape, span⟩ a) := by
  have hnode := h.node
  simp only [Entry.node?, Option.bind_eq_bind, Option.bind_eq_some_iff, Option.pure_def,
    Option.some.injEq] at hnode
  obtain ⟨i, hi, c, hc, s, hs, b, hb, rfl⟩ := hnode
  obtain ⟨hsomei, hi⟩ := optional?_zip.1 hi
  obtain ⟨hsomec, hc⟩ := optional?_zip.1 hc
  obtain ⟨hsomes, hs⟩ := optional?_zip.1 hs
  have hheld := Held.start h (init.toList.zip i.toList ++ (cond.toList.zip c.toList ++
      (step.toList.zip s.toList ++ [(body, b)])))
    (by simp [Cell.links?, fst_zip_option hsomei, fst_zip_option hsomec, fst_zip_option hsomes])
    (by simpa only [List.forall_mem_append, List.forall_mem_singleton] using ⟨hi, hc, hs, hb⟩)
  refine (hheld.option hsomei hvisit inLoop (here :: outer) (.fresh .header)).bind ?_
  rintro ⟨i', _⟩ header a' - ⟨rfl, hsomei, hheld⟩
  refine (hheld.option hsomec hvisit inLoop (here :: outer) header).bind ?_
  rintro ⟨c', _⟩ header a' - ⟨rfl, hsomec, hheld⟩
  refine (hheld.option hsomes hvisit inLoop (here :: outer) header).bind ?_
  rintro ⟨s', _⟩ header a' - ⟨rfl, hsomes, hheld⟩
  refine (hheld.visit hvisit true (header :: here :: outer) (.fresh .body)).bind ?_
  rintro ⟨b', _⟩ bodyScope a' - ⟨rfl, hheld⟩
  refine hheld.write rfl fun get hget => ?_
  simp only [List.forall_mem_append, List.nil_append, List.forall_mem_singleton] at hget
  simp only [Entry.node?, hget, optional?_zip.2 ⟨hsomei, hget.1.1.1⟩,
    optional?_zip.2 ⟨hsomec, hget.1.1.2⟩, optional?_zip.2 ⟨hsomes, hget.1.2⟩]
  rfl

theorem names_of_fit {formals : List Formal} {params : List Param}
    (h : List.Forall₂ Fit formals params) : params.map Param.name = formals.map Formal.name := by
  induction h with
  | nil => rfl
  | cons hfit _ ih => rw [List.map_cons, List.map_cons, ih, hfit.1]

theorem define_mirrors {name : String} {binding : Option VarRef} {params : Range} {body : Nat}
    {frame : Shape} (h : Rooted a link ⟨.define name binding params body frame, span⟩ node)
    (hvisit : ∀ j < link, Follows visit j) (inLoop : Bool) (outer : List Context) (here : Context) :
    Mirrors {i | i ∈ a.cells link} a (Resolved link) (node.resolve inLoop outer here)
      (visit.entry inLoop outer here link ⟨.define name binding params body frame, span⟩ a) := by
  have hnode := h.node
  simp only [Entry.node?, Option.bind_eq_bind, Option.bind_eq_some_iff, Option.pure_def,
    Option.some.injEq] at hnode
  obtain ⟨formals, hformals, ps, hps, b, hb, rfl⟩ := hnode
  obtain ⟨hfit, hps⟩ := params_zip.1 hps
  have hheld := Held.start h (defaultParts formals ps ++ [(body, b)])
    (by simp [Cell.links?, hformals, fst_defaultParts hfit])
    (by simpa only [List.forall_mem_append, List.forall_mem_singleton] using ⟨hps, hb⟩)
  -- what comes after the function's own name is the same with and without one
  have hrest : ∀ (binding' : Option VarRef) (here : Context),
      (Cell.define name binding' params body frame).unmarked =
        (Cell.define name binding params body frame).unmarked →
      Mirrors {i | i ∈ a.cells link} a (Resolved link)
        (resolveParams inLoop outer here ps >>= fun both =>
          b.resolve false (both.2 :: outer) ((Context.fresh .function).declareAll (both.1.map Param.name)) >>=
            fun both' => pure (.define name binding' both.1 both'.1 both'.2.shape span, both.2))
        ((do
          let formals ← Walk.read (stretch? ·.formals params)
          let here ← visit.defaults inLoop outer here formals
          let frame := (Context.fresh .function).declareAll (formals.map Formal.name)
          let frame ← visit false (here :: outer) frame body
          Walk.write link (.define name binding' params body frame.shape)
          return here : Walk Context) a) := by
    intro binding' here hbinding
    refine Mirrors.read hformals ((hheld.defaults hfit hvisit inLoop outer here).bind ?_)
    rintro ⟨ps', _⟩ here a' hwithin ⟨rfl, hfit', hheld⟩
    rw [names_of_fit hfit']
    refine (hheld.visit hvisit false (here :: outer) _).bind ?_
    rintro ⟨b', _⟩ frame a'' hwithin' ⟨rfl, hheld⟩
    refine hheld.write hbinding fun get hget => ?_
    simp only [List.forall_mem_append, List.nil_append, List.forall_mem_singleton] at hget
    have hformals' : stretch? a''.formals params = some formals := by
      rw [hwithin'.formals, hwithin.formals, hformals]
    simp only [Entry.node?, hformals', Option.bind_eq_bind, Option.bind_some, hget,
      params_zip.2 ⟨hfit', hget.1⟩]
    rfl
  cases binding with
  | none => exact hrest none here rfl
  | some var => exact hrest (some (here.declare name .var).1) (here.declare name .var).2 rfl

theorem call_mirrors {callee : Nat} {args : Range} (h : Rooted a link ⟨.call callee args, span⟩ node)
    (hvisit : ∀ j < link, Follows visit j) (inLoop : Bool) (outer : List Context) (here : Context) :
    Mirrors {i | i ∈ a.cells link} a (Resolved link) (node.resolve inLoop outer here)
      (visit.entry inLoop outer here link ⟨.call callee args, span⟩ a) := by
  have hnode := h.node
  simp only [Entry.node?, Option.bind_eq_bind, Option.bind_eq_some_iff, Option.pure_def,
    Option.some.injEq] at hnode
  obtain ⟨c, hc, links, hlinks, nodes, hnodes, rfl⟩ := hnode
  obtain ⟨hlength, hnodes⟩ := mapM_zip.1 hnodes
  have hheld := Held.start h ((callee, c) :: links.zip nodes)
    (by simp [Cell.links?, hlinks, List.map_fst_zip hlength.le])
    (List.forall_mem_cons.2 ⟨hc, hnodes⟩)
  refine (hheld.visit hvisit inLoop outer here).bind ?_
  rintro ⟨c', _⟩ here a' hwithin ⟨rfl, hheld⟩
  rw [← List.append_nil (links.zip _)] at hheld
  rw [← hwithin.links] at hlinks
  refine Mirrors.read hlinks ((hheld.all hlength hvisit inLoop outer here).map ?_)
  rintro ⟨nodes', _⟩ here a'' hwithin' ⟨rfl, hlength', hheld⟩
  refine ⟨rfl, hheld.finish fun get hget => ?_⟩
  simp only [List.forall_mem_append, List.nil_append, List.forall_mem_singleton] at hget
  rw [← hwithin'.links] at hlinks
  simp only [Entry.node?, hget, hlinks, Option.bind_eq_bind, Option.bind_some,
    mapM_zip.2 ⟨hlength', hget.2⟩]
  rfl

/-- If the walk follows the trees further down, it follows the tree at the entry. -/
theorem entry_mirrors {entry : Entry} (h : Rooted a link entry node)
    (hvisit : ∀ j < link, Follows visit j) (inLoop : Bool) (outer : List Context) (here : Context) :
    Mirrors {i | i ∈ a.cells link} a (Resolved link) (node.resolve inLoop outer here)
      (visit.entry inLoop outer here link entry a) := by
  have htree : a.tree? link = some node := Arena.tree?_eq_some_iff.2 ⟨entry, h.own, h.node⟩
  have hnode := h.node
  obtain ⟨cell, span⟩ := entry
  cases cell with
  | assign target var decl op value => exact assign_mirrors h hvisit inLoop outer here
  | branch cond yes no yesShape noShape => exact branch_mirrors h hvisit inLoop outer here
  | whileLoop cond body header bodyShape => exact whileLoop_mirrors h hvisit inLoop outer here
  | forLoop init cond step body header bodyShape => exact forLoop_mirrors h hvisit inLoop outer here
  | define name binding params body frame => exact define_mirrors h hvisit inLoop outer here
  | call callee args => exact call_mirrors h hvisit inLoop outer here
  | ident name var =>
    obtain rfl := Option.some.inj hnode
    exact (Held.start h [] rfl (by simp)).write rfl fun _ _ => rfl
  | int value | float bits | bool value | str text | null =>
    obtain rfl := Option.some.inj hnode
    exact .ok (.refl _ a) ⟨rfl, htree⟩
  | breakLoop | continueLoop =>
    obtain rfl := Option.some.inj hnode
    cases inLoop with
    | true => exact .ok (.refl _ a) ⟨rfl, htree⟩
    | false => exact .fault
  | unary op operand =>
    obtain ⟨n, hn, hunary⟩ := Option.bind_eq_some_iff.1 hnode
    obtain rfl := Option.some.inj hunary
    have hheld := Held.start h [(operand, n)] rfl (List.forall_mem_singleton.2 hn)
    refine (hheld.visit hvisit inLoop outer here).map ?_
    rintro ⟨n', _⟩ here' a' - ⟨rfl, hheld⟩
    refine ⟨rfl, hheld.finish fun get hget => ?_⟩
    rw [List.nil_append, List.forall_mem_singleton] at hget
    simp only [Entry.node?, hget]
    rfl
  | binary op left right =>
    simp only [Entry.node?, Option.bind_eq_bind, Option.bind_eq_some_iff, Option.pure_def,
      Option.some.injEq] at hnode
    obtain ⟨l, hl, r, hr, rfl⟩ := hnode
    have hheld := Held.start h [(left, l), (right, r)] rfl
      (List.forall_mem_cons.2 ⟨hl, List.forall_mem_singleton.2 hr⟩)
    refine (hheld.visit hvisit inLoop outer here).bind ?_
    rintro ⟨l', _⟩ here a' - ⟨rfl, hheld⟩
    refine (hheld.visit hvisit inLoop outer here).map ?_
    rintro ⟨r', _⟩ here a' - ⟨rfl, hheld⟩
    refine ⟨rfl, hheld.finish fun get hget => ?_⟩
    simp only [List.forall_mem_append, List.nil_append, List.forall_mem_singleton] at hget
    simp only [Entry.node?, hget]
    rfl
  | block body =>
    simp only [Entry.node?, Option.bind_eq_bind, Option.bind_eq_some_iff, Option.pure_def,
      Option.some.injEq] at hnode
    obtain ⟨links, hlinks, nodes, hnodes, rfl⟩ := hnode
    obtain ⟨hlength, hnodes⟩ := mapM_zip.1 hnodes
    have hheld := Held.start h (links.zip nodes)
      (by simp [Cell.links?, hlinks, List.map_fst_zip hlength.le]) hnodes
    rw [← List.append_nil (links.zip nodes)] at hheld
    refine Mirrors.read hlinks ((hheld.all hlength hvisit inLoop outer here).map ?_)
    rintro ⟨nodes', _⟩ here a' hwithin ⟨rfl, hlength', hheld⟩
    refine ⟨rfl, hheld.finish fun get hget => ?_⟩
    rw [← hwithin.links] at hlinks
    simp only [Entry.node?, hlinks, Option.bind_eq_bind, Option.bind_some,
      mapM_zip.2 ⟨hlength', hget⟩]
    rfl
  | ret value =>
    obtain ⟨v, hv, hret⟩ := Option.bind_eq_some_iff.1 hnode
    obtain rfl := Option.some.inj hret
    obtain ⟨hsome, hv⟩ := optional?_zip.1 hv
    have hheld := Held.start h (value.toList.zip v.toList)
      (by simp [Cell.links?, fst_zip_option hsome]) hv
    rw [← List.append_nil (value.toList.zip _)] at hheld
    refine (hheld.option hsome hvisit inLoop outer here).map ?_
    rintro ⟨v', _⟩ here a' - ⟨rfl, hsome', hheld⟩
    refine ⟨rfl, hheld.finish fun get hget => ?_⟩
    simp only [Entry.node?, optional?_zip.2 ⟨hsome', hget⟩]
    rfl

end Cells

theorem resolveAt_follows (link : Nat) : Follows resolveAt link := by
  induction link using Nat.strongRecOn with
  | ind link ih =>
    intro inLoop outer here node a hnode hnodup
    obtain ⟨entry, hentry, hparts⟩ := Arena.tree?_eq_some_iff.1 hnode
    rw [resolveAt]
    refine Mirrors.read hentry (entry_mirrors ⟨hentry, hparts, hnodup⟩ (fun j hj => ?_) inLoop outer here)
    intro inLoop outer here
    simp only [dif_pos hj]
    exact ih j hj inLoop outer here

/-! ## Layouts -/

/-- The layout has the program's trees and the shape of its scope, and no two trees share an entry. -/
def ShapedLayout.Stores (layout : ShapedLayout) (program : Program) : Prop :=
  layout.toLayout.Stores { program with shape := .blank } ∧ layout.shape = program.shape

namespace ShapedLayout

variable {layout other : ShapedLayout} {program resolved : Program}

/-- The walk of a layout that stores a program follows the resolver of the program's statements. -/
theorem Stores.walk_mirrors (h : layout.Stores program) :
    ∃ links, stretch? layout.arena.links layout.body = some links ∧
      Mirrors Set.univ layout.arena (fun x y a' => y = x.2 ∧ links.mapM a'.tree? = some x.1)
        (resolveAll false [] (.fresh .program) program.body) (walk layout.body layout.arena) := by
  obtain ⟨⟨-, links, hlinks, htrees, hcells⟩, -⟩ := h
  obtain ⟨hlength, htrees⟩ := mapM_zip.1 htrees
  have hdown : ∀ i ∈ links, i < layout.arena.entries.length := by
    intro i hi
    obtain ⟨node, hnode⟩ := exists_of_mapM (mapM_zip.2 ⟨hlength, htrees⟩) hi
    exact Arena.lt_length_of_tree? hnode
  have hbound : ∀ i ∈ links.flatMap layout.arena.cells, i < layout.arena.entries.length := by
    intro i hi
    exact Multiset.mem_range.1 (Multiset.mem_of_le hcells (Multiset.mem_coe.2 hi))
  have hnodup : (links.flatMap layout.arena.cells).Nodup :=
    Multiset.coe_nodup.1 (Multiset.nodup_of_le hcells (Multiset.nodup_range _))
  -- the list of statements stands where the next entry would
  have hheld : Held Set.univ layout.arena.entries.length none links layout.arena []
      (links.zip program.body ++ []) := by
    refine ⟨List.getElem?_eq_none_iff.2 le_rfl, ?_, ?_, hdown, ?_, fun i _ => Set.mem_univ i⟩
    · rw [List.append_nil, List.nil_append, List.map_fst_zip hlength.le]
    · simpa using htrees
    · exact List.nodup_cons.2 ⟨fun hmem => (hbound _ hmem).false, hnodup⟩
  refine ⟨links, hlinks, Mirrors.read hlinks ?_⟩
  have hall := hheld.all hlength (fun j _ => resolveAt_follows j) false [] (.fresh .program)
  refine hall.mono subset_rfl ?_
  rintro ⟨nodes, _⟩ scope a' - ⟨rfl, hlength', hheld⟩
  exact ⟨rfl, mapM_zip.2 ⟨hlength', fun part hpart => hheld.tree part (by simpa using hpart)⟩⟩

/-- **A layout that stores a program is resolved as the program is.** -/
theorem Stores.resolve (h : layout.Stores program) :
    (∀ e, program.resolve = .error e → layout.resolve.1 = .error (.fault e)) ∧
      ∀ resolved, program.resolve = .ok resolved →
        layout.resolve.1 = .ok () ∧ layout.resolve.2.Stores resolved := by
  obtain ⟨links, hlinks, hmirrors⟩ := h.walk_mirrors
  generalize hwalk : walk layout.body layout.arena = result at hmirrors
  generalize hall : resolveAll false [] (.fresh .program) program.body = trees at hmirrors
  have hprogram : program.resolve = trees >>= fun both => .ok ⟨both.1, both.2.shape⟩ := by
    rw [Program.resolve, hall]
    rfl
  cases hmirrors with
  | @fault e a' =>
    rw [resolve_of_error hwalk, hprogram]
    constructor
    · intro e' he
      cases he
      rfl
    · intro resolved hresolved
      cases hresolved
  | @ok trees scope a' hwithin hpost =>
    rw [resolve_of_ok hwalk, hprogram]
    obtain ⟨rfl, htrees⟩ := hpost
    obtain ⟨⟨-, links', hlinks', -, hcells⟩, -⟩ := h
    obtain rfl : links = links' := Option.some.inj (hlinks.symm.trans hlinks')
    have hlength : a'.entries.length = layout.arena.entries.length := by
      have hentries := congrArg (·.entries.length) hwithin.unmarked
      simpa only [Arena.unmarked, List.length_map] using hentries
    constructor
    · intro e he
      cases he
    intro resolved hresolved
    cases hresolved
    refine ⟨rfl, ⟨rfl, links, hwithin.links ▸ hlinks, htrees, ?_⟩, rfl⟩
    rw [hlength, List.flatMap_congr fun i _ => hwithin.cells i]
    exact hcells

theorem links?_eq_of_unmarked (h : other.unmarked = layout.unmarked) (source : Option Nat) :
    other.links? source = layout.links? source := by
  have harena : other.arena.unmarked = layout.arena.unmarked :=
    (congrArg (fun layout : ShapedLayout => layout.arena) h :)
  have hbody : other.body = layout.body := (congrArg (fun layout : ShapedLayout => layout.body) h :)
  cases source with
  | none =>
    rw [Layout.links?, Layout.links?, hbody]
    exact congrArg (stretch? · layout.body) (congrArg Arena.links harena :)
  | some i =>
    rw [Layout.links?, Layout.links?, ← Arena.links?_unmarked, harena, Arena.links?_unmarked]

theorem reaches_of_unmarked (h : other.unmarked = layout.unmarked) {i : Nat} (hi : other.Reaches i) :
    layout.Reaches i := by
  induction hi with
  | body hlinks hj => exact .body ((links?_eq_of_unmarked h none).symm.trans hlinks) hj
  | child _ hlinks hj ih => exact .child ih ((links?_eq_of_unmarked h _).symm.trans hlinks) hj

theorem reaches_of_mem_cells {link i : Nat} {node : Node} (h : layout.Reaches link)
    (hnode : layout.arena.tree? link = some node) (hi : i ∈ layout.arena.cells link) :
    layout.Reaches i := by
  induction link using Nat.strongRecOn generalizing node with
  | ind link ih =>
    obtain ⟨links, hlinks, hcells⟩ := Arena.cells_of_tree? hnode
    obtain ⟨links', hlinks', hdown⟩ := Arena.links?_of_tree? hnode
    obtain rfl : links = links' := Option.some.inj (hlinks.symm.trans hlinks')
    rw [hcells, List.mem_cons, List.mem_flatMap] at hi
    rcases hi with rfl | ⟨j, hj, hi⟩
    · exact h
    · obtain ⟨hlt, n, hn⟩ := hdown j hj
      exact ih j hlt (.child h hlinks hj) hn hi

/-- What is the same wherever a layout can be reached stores the same program. -/
theorem Stores.congr (h : layout.Stores program) (hother : other.unmarked = layout.unmarked)
    (hshape : other.shape = layout.shape)
    (hentries : ∀ i, layout.Reaches i → other.arena.entries[i]? = layout.arena.entries[i]?) :
    other.Stores program := by
  obtain ⟨⟨-, links, hlinks, htrees, hcells⟩, hprogram⟩ := h
  have hwithin : Within {i | ¬ layout.Reaches i} layout.arena other.arena :=
    ⟨(congrArg (fun layout : ShapedLayout => layout.arena) hother :),
      fun i hi => hentries i (not_not.1 hi)⟩
  have hlength : other.arena.entries.length = layout.arena.entries.length := by
    have hentries := congrArg (·.entries.length) hwithin.unmarked
    simpa only [Arena.unmarked, List.length_map] using hentries
  refine ⟨⟨rfl, links, ?_, ?_, ?_⟩, hshape.trans hprogram⟩
  · exact (links?_eq_of_unmarked hother none).trans hlinks
  · refine (mapM_congr fun link hlink => ?_).trans htrees
    obtain ⟨node, hnode⟩ := exists_of_mapM htrees hlink
    have hreach := fun i => reaches_of_mem_cells (i := i) (.body hlinks hlink) hnode
    rw [hnode, hwithin.tree? hnode fun i hi => not_not.2 (hreach i hi)]
  · rw [hlength, List.flatMap_congr fun i _ => hwithin.cells i]
    exact hcells

/-- **To resolve a program only fills in its places and shapes, and forgets the ones it had.** Two
layouts that only differ in these end the same way, with nothing else changed in either, and if they
are resolved they are the same wherever they can be reached, and to resolve one of them once more
makes no difference. A layout that stores a program is resolved as the program is, and so is every
other tree that only differs in places and shapes. -/
theorem resolve_annotates (layout other : ShapedLayout) (h : other.unmarked = layout.unmarked) :
    other.resolve.1 = layout.resolve.1 ∧
    layout.resolve.2.unmarked = layout.unmarked ∧ other.resolve.2.unmarked = layout.unmarked ∧
    (layout.resolve.1 = .ok () →
      other.resolve.2.shape = layout.resolve.2.shape ∧
      (∀ i, layout.Reaches i →
        other.resolve.2.arena.entries[i]? = layout.resolve.2.arena.entries[i]?) ∧
      layout.resolve.2.resolve = (.ok (), layout.resolve.2)) ∧
    ∀ program, layout.Stores program →
      (∀ raw : Program, raw.unmarked = program.unmarked → raw.resolve = program.resolve) ∧
      (∀ e, program.resolve = .error e → layout.resolve.1 = .error (.fault e)) ∧
      ∀ resolved, program.resolve = .ok resolved →
        layout.resolve.1 = .ok () ∧ layout.resolve.2.Stores resolved ∧ other.resolve.2.Stores resolved ∧
        resolved.unmarked = program.unmarked ∧ resolved.resolve = .ok resolved := by
  obtain ⟨hresult, hkept, -, hsame⟩ := resolve_even h
  have hkept' : other.resolve.2.unmarked = layout.unmarked := (resolve_even rfl).2.1.trans h
  refine ⟨hresult, hkept, hkept', fun hok => ?_, fun program hstores => ?_⟩
  · exact ⟨(hsame hok).1, (hsame hok).2, resolve_again hok⟩
  · obtain ⟨hfault, hprogram⟩ := hstores.resolve
    refine ⟨fun raw hraw => Program.resolve_congr hraw, hfault, fun resolved hresolved => ?_⟩
    obtain ⟨hok, hresolves⟩ := hprogram resolved hresolved
    obtain ⟨hshape, hentries⟩ := hsame hok
    refine ⟨hok, hresolves, ?_, Program.unmarked_resolve hresolved, Program.resolve_resolved hresolved⟩
    refine hresolves.congr (hkept'.trans hkept.symm) hshape fun i hi => hentries i ?_
    exact reaches_of_unmarked hkept hi

/-- The program `x = 1; x` with these occurrences of its variable and this shape. -/
def assigned (target use : VarRef) (shape : Shape) : ShapedLayout where
  arena :=
    { entries :=
        [⟨.int 1, default⟩, ⟨.assign "x" target .plain none 0, default⟩, ⟨.ident "x" use, default⟩]
      links := [1, 2] }
  body := ⟨0, 2⟩
  shape := shape

theorem stores_assigned (target use : VarRef) (shape : Shape) :
    (assigned target use shape).Stores
      { body := [.assign "x" target .plain none (.int 1 default) default, .ident "x" use default]
        shape := shape } := by
  have hvalue : (assigned target use shape).arena.tree? 0 = some (.int 1 default) :=
    Arena.tree?_eq_some_iff.2 ⟨_, rfl, rfl⟩
  have hassign : (assigned target use shape).arena.tree? 1 =
      some (.assign "x" target .plain none (.int 1 default) default) := by
    refine Arena.tree?_eq_some_iff.2 ⟨_, rfl, ?_⟩
    simp only [Entry.node?, if_pos Nat.zero_lt_one, hvalue]
    rfl
  have huse : (assigned target use shape).arena.tree? 2 = some (.ident "x" use default) :=
    Arena.tree?_eq_some_iff.2 ⟨_, rfl, rfl⟩
  have hcells : [1, 2].flatMap (assigned target use shape).arena.cells = [1, 0, 2] := by
    obtain ⟨links, hlinks, hcells⟩ := Arena.cells_of_tree? hvalue
    obtain ⟨links', hlinks', hcells'⟩ := Arena.cells_of_tree? hassign
    obtain ⟨links'', hlinks'', hcells''⟩ := Arena.cells_of_tree? huse
    cases hlinks
    cases hlinks'
    cases hlinks''
    simp only [List.flatMap_cons, List.flatMap_nil, hcells, hcells', hcells'', List.append_nil,
      List.cons_append, List.nil_append]
  refine ⟨⟨rfl, [1, 2], rfl, ?_, ?_⟩, rfl⟩
  · exact mapM_eq_some_iff.2 (.cons hassign (.cons huse .nil))
  · rw [hcells]
    exact (by decide : (↑[1, 0, 2] : Multiset Nat) ≤ Multiset.range 3)

/-- An occurrence of a name that claims to be a constant far outside, and one that claims to declare a
global name, are set right. -/
theorem resolve_annotates_misplaced :
    (assigned ⟨.reference, .slot 7 3 .const⟩ ⟨.declare, .global⟩ ⟨.header, 5, 5⟩).unmarked =
      (assigned .unresolved .unresolved .blank).unmarked ∧
    (assigned ⟨.reference, .slot 7 3 .const⟩ ⟨.declare, .global⟩ ⟨.header, 5, 5⟩).resolve.2.Stores
      { body := [.assign "x" ⟨.declare, .slot 0 0 .var⟩ .plain none (.int 1 default) default,
          .ident "x" ⟨.reference, .slot 0 0 .var⟩ default]
        shape := ⟨.program, 1, 0⟩ } :=
  ⟨rfl, (((resolve_annotates (assigned .unresolved .unresolved .blank)
    (assigned ⟨.reference, .slot 7 3 .const⟩ ⟨.declare, .global⟩ ⟨.header, 5, 5⟩) rfl).2.2.2.2 _
      (stores_assigned .unresolved .unresolved .blank)).2.2 _ rfl).2.2.1⟩

end ShapedLayout

end SlotScript.Flat