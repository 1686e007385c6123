import Mathlib.Data.List.Forall2
import SlotScript.Proofs.Tree.Change
import SlotScript.Proofs.Flat.Arena

/-!
# What stays when an arena grows

A builder only ever adds to its arena. What can be read off an arena can be read off every larger one
(`tree?_grows`), and takes up the same entries there (`cells_grows`).

`Arena.cells` lists the entries that a tree takes up. Both it and `Arena.tree?` follow links downwards,
so the proofs are by induction on the link that is followed.
-/

namespace SlotScript.Flat

theorem mapM_eq_some_iff {f : α → Option β} {xs : List α} {ys : List β} :
    xs.mapM f = some ys ↔ List.Forall₂ (fun x y => f x = some y) xs ys := by
  induction xs generalizing ys with
  | nil => simp [eq_comm]
  | cons x xs ih =>
    rw [List.forall₂_cons_left_iff]
    simp only [List.mapM_cons, Option.bind_eq_bind, Option.bind_eq_some_iff, Option.pure_def,
      Option.some.injEq, ih]
    constructor
    · rintro ⟨y, hy, ys, hys, rfl⟩
      exact ⟨y, ys, hy, hys, rfl⟩
    · rintro ⟨y, ys, hy, hys, rfl⟩
      exact ⟨y, hy, ys, hys, rfl⟩

theorem mapM_mono {f g : α → Option β} (h : ∀ x y, f x = some y → g x = some y) {xs : List α}
    {ys : List β} (hxs : xs.mapM f = some ys) : xs.mapM g = some ys :=
  mapM_eq_some_iff.2 ((mapM_eq_some_iff.1 hxs).imp h)

theorem exists_of_mapM {f : α → Option β} {xs : List α} {ys : List β} (h : xs.mapM f = some ys)
    {x : α} (hx : x ∈ xs) : ∃ y, f x = some y := by
  replace h := mapM_eq_some_iff.1 h
  induction h with
  | nil => cases hx
  | cons hxy _ ih =>
    cases hx with
    | head => exact ⟨_, hxy⟩
    | tail _ hx => exact ih hx

/-! ## Growing -/

theorem stretch?_grows {xs xs' ys : List α} {range : Range} (h : xs <+: xs')
    (hys : stretch? xs range = some ys) : stretch? xs' range = some ys := by
  obtain ⟨more, rfl⟩ := h
  unfold stretch? at hys ⊢
  split at hys
  · rename_i hlen
    obtain rfl := Option.some.inj hys
    rw [if_pos (by rw [List.length_append]; omega), List.drop_append_of_le_length (by omega),
      List.take_append_of_le_length (by rw [List.length_drop]; omega)]
  · cases hys

/-- A stretch that was just added. -/
theorem stretch?_append (xs ys : List α) :
    stretch? (xs ++ ys) ⟨xs.length, (xs ++ ys).length - xs.length⟩ = some ys := by
  simp [stretch?]

/-- The second arena holds what the first one holds, at the same places. -/
structure Arena.Grows (a a' : Arena) : Prop where
  entries : a.entries <+: a'.entries
  links : a.links <+: a'.links
  formals : a.formals <+: a'.formals

namespace Arena

variable {a a' a'' : Arena}

theorem Grows.refl (a : Arena) : a.Grows a :=
  ⟨List.prefix_rfl, List.prefix_rfl, List.prefix_rfl⟩

theorem Grows.trans (h : a.Grows a') (h' : a'.Grows a'') : a.Grows a'' :=
  ⟨h.entries.trans h'.entries, h.links.trans h'.links, h.formals.trans h'.formals⟩

theorem Grows.entry (h : a.Grows a') {i : Nat} {entry : Entry} (hi : a.entries[i]? = some entry) :
    a'.entries[i]? = some entry := by
  obtain ⟨more, hmore⟩ := h.entries
  rw [← hmore, List.getElem?_append_left (List.getElem?_eq_some_iff.1 hi).1, hi]

end Arena

/-! ## Nodes of entries -/

theorem optional?_eq_some {get : Nat → Option Node} {link : Option Nat} {node : Option Node}
    (h : optional? get link = some node) : ∀ i ∈ link, ∃ n, get i = some n := by
  rintro i rfl
  obtain ⟨n, hn, -⟩ := Option.map_eq_some_iff.1 h
  exact ⟨n, hn⟩

section Nodes

variable {get get' : Nat → Option Node}

theorem optional?_mono (h : ∀ i n, get i = some n → get' i = some n) {link : Option Nat}
    {node : Option Node} (hnode : optional? get link = some node) :
    optional? get' link = some node := by
  cases link with
  | none => exact hnode
  | some i =>
    obtain ⟨n, hn, rfl⟩ := Option.map_eq_some_iff.1 hnode
    exact Option.map_eq_some_iff.2 ⟨n, h i n hn, rfl⟩

theorem Formal.param?_mono (h : ∀ i n, get i = some n → get' i = some n) (formal : Formal)
    (param : Param) (hparam : formal.param? get = some param) : formal.param? get' = some param := by
  obtain ⟨default, hdefault, rfl⟩ := Option.map_eq_some_iff.1 hparam
  exact Option.map_eq_some_iff.2 ⟨default, optional?_mono h hdefault, rfl⟩

theorem Cell.links?_grows {a a' : Arena} (h : a.Grows a') {cell : Cell} {links : List Nat}
    (hlinks : cell.links? a = some links) : cell.links? a' = some links := by
  cases cell
  case define =>
    obtain ⟨formals, hformals, rfl⟩ := Option.map_eq_some_iff.1 hlinks
    exact Option.map_eq_some_iff.2 ⟨formals, stretch?_grows h.formals hformals, rfl⟩
  case call =>
    obtain ⟨args, hargs, rfl⟩ := Option.map_eq_some_iff.1 hlinks
    exact Option.map_eq_some_iff.2 ⟨args, stretch?_grows h.links hargs, rfl⟩
  case block => exact stretch?_grows h.links hlinks
  all_goals exact hlinks

/-- A node is still there if its parts are. -/
theorem Entry.node?_grows {a a' : Arena} (h : a.Grows a')
    (hget : ∀ i n, get i = some n → get' i = some n) {entry : Entry} {node : Node}
    (hnode : entry.node? a get = some node) : entry.node? a' get' = some node := by
  have hopt : ∀ {link node}, optional? get link = some node → optional? get' link = some node :=
    optional?_mono hget
  obtain ⟨cell, span⟩ := entry
  cases cell <;>
    simp only [Entry.node?, Option.bind_eq_bind, Option.bind_eq_some_iff, Option.pure_def,
      Option.some.injEq] at hnode ⊢
  case unary => exact hnode.imp fun _ hn => ⟨hget _ _ hn.1, hn.2⟩
  case binary =>
    obtain ⟨l, hl, r, hr, rfl⟩ := hnode
    exact ⟨l, hget _ _ hl, r, hget _ _ hr, rfl⟩
  case assign => exact hnode.imp fun _ hn => ⟨hget _ _ hn.1, hn.2⟩
  case branch =>
    obtain ⟨c, hc, y, hy, n, hn, rfl⟩ := hnode
    exact ⟨c, hget _ _ hc, y, hget _ _ hy, n, hopt hn, rfl⟩
  case whileLoop =>
    obtain ⟨c, hc, b, hb, rfl⟩ := hnode
    exact ⟨c, hget _ _ hc, b, hget _ _ hb, rfl⟩
  case forLoop =>
    obtain ⟨i, hi, c, hc, s, hs, b, hb, rfl⟩ := hnode
    exact ⟨i, hopt hi, c, hopt hc, s, hopt hs, b, hget _ _ hb, rfl⟩
  case define =>
    obtain ⟨formals, hformals, params, hparams, b, hb, rfl⟩ := hnode
    exact ⟨formals, stretch?_grows h.formals hformals, params,
      mapM_mono (Formal.param?_mono hget) hparams, b, hget _ _ hb, rfl⟩
  case call =>
    obtain ⟨c, hc, args, hargs, nodes, hnodes, rfl⟩ := hnode
    exact ⟨c, hget _ _ hc, args, stretch?_grows h.links hargs, nodes, mapM_mono hget hnodes, rfl⟩
  case block =>
    obtain ⟨links, hlinks, nodes, hnodes, rfl⟩ := hnode
    exact ⟨links, stretch?_grows h.links hlinks, nodes, mapM_mono hget hnodes, rfl⟩
  case ret =>
    obtain ⟨v, hv, rfl⟩ := hnode
    exact ⟨v, hopt hv, rfl⟩
  all_goals exact hnode

/-- Every link of an entry with a node was followed. -/
theorem Entry.links?_of_node? {a : Arena} {entry : Entry} {node : Node}
    (h : entry.node? a get = some node) :
    ∃ links, entry.cell.links? a = some links ∧ ∀ i ∈ links, ∃ n, get i = some n := by
  obtain ⟨cell, span⟩ := entry
  cases cell <;>
    simp only [Entry.node?, Option.bind_eq_bind, Option.bind_eq_some_iff, Option.pure_def,
      Option.some.injEq] at h <;>
    simp only [Cell.links?]
  case unary =>
    obtain ⟨n, hn, -⟩ := h
    exact ⟨_, rfl, by simp [hn]⟩
  case binary =>
    obtain ⟨l, hl, r, hr, -⟩ := h
    exact ⟨_, rfl, by simp [hl, hr]⟩
  case assign =>
    obtain ⟨n, hn, -⟩ := h
    exact ⟨_, rfl, by simp [hn]⟩
  case branch =>
    obtain ⟨c, hc, y, hy, n, hn, -⟩ := h
    have hn := optional?_eq_some hn
    exact ⟨_, rfl, by simpa [hc, hy] using hn⟩
  case whileLoop =>
    obtain ⟨c, hc, b, hb, -⟩ := h
    exact ⟨_, rfl, by simp [hc, hb]⟩
  case forLoop =>
    obtain ⟨i, hi, c, hc, s, hs, b, hb, -⟩ := h
    have hi := optional?_eq_some hi
    have hc := optional?_eq_some hc
    have hs := optional?_eq_some hs
    refine ⟨_, rfl, ?_⟩
    simp only [List.mem_append, List.mem_singleton, Option.mem_toList]
    rintro j (((hj | hj) | hj) | rfl)
    · exact hi j hj
    · exact hc j hj
    · exact hs j hj
    · exact ⟨b, hb⟩
  case define =>
    obtain ⟨formals, hformals, params, hparams, b, hb, -⟩ := h
    refine ⟨_, by rw [hformals]; rfl, ?_⟩
    simp only [List.mem_append, List.mem_filterMap, List.mem_singleton]
    rintro j (⟨formal, hformal, hj⟩ | rfl)
    · obtain ⟨param, hparam⟩ := exists_of_mapM hparams hformal
      obtain ⟨default, hdefault, -⟩ := Option.map_eq_some_iff.1 hparam
      exact optional?_eq_some hdefault j hj
    · exact ⟨b, hb⟩
  case call =>
    obtain ⟨c, hc, args, hargs, nodes, hnodes, -⟩ := h
    refine ⟨_, by rw [hargs]; rfl, ?_⟩
    simp only [List.forall_mem_cons]
    exact ⟨⟨c, hc⟩, fun i hi => exists_of_mapM hnodes hi⟩
  case block =>
    obtain ⟨links, hlinks, nodes, hnodes, -⟩ := h
    exact ⟨links, hlinks, fun i hi => exists_of_mapM hnodes hi⟩
  case ret =>
    obtain ⟨v, hv, -⟩ := h
    exact ⟨_, rfl, by simpa using optional?_eq_some hv⟩
  all_goals exact ⟨[], rfl, by simp⟩

theorem Entry.span_of_node? {a : Arena} {entry : Entry} {node : Node}
    (h : entry.node? a get = some node) : node.span = entry.span := by
  obtain ⟨cell, span⟩ := entry
  cases cell <;>
    simp only [Entry.node?, Option.bind_eq_bind, Option.bind_eq_some_iff, Option.pure_def,
      Option.some.injEq] at h <;>
    grind [Node.span]

/-- Whether the builder looks into an operand; the same as `Node.isOpen`. -/
def Cell.isOpen : Cell → Bool
  | .ident .. | .block _ | .assign _ _ .plain none _ => true
  | _ => false

/-- What the builder looks into is the same in the entry and in the node. -/
theorem Entry.isOpen_of_node? {a : Arena} {entry : Entry} {node : Node}
    (h : entry.node? a get = some node) :
    (∃ name var, entry.cell = .ident name var ∧ node = .ident name var entry.span) ∨
      (∃ range body, entry.cell = .block range ∧ node = .block body entry.span) ∨
      (∃ target var i value, entry.cell = .assign target var .plain none i ∧ get i = some value ∧
        node = .assign target var .plain none value entry.span) ∨
      entry.cell.isOpen = false ∧ node.isOpen = false := by
  obtain ⟨cell, span⟩ := entry
  cases cell <;>
    simp only [Entry.node?, Option.bind_eq_bind, Option.bind_eq_some_iff, Option.pure_def,
      Option.some.injEq] at h
  case ident name var => exact .inl ⟨name, var, rfl, h.symm⟩
  case block range =>
    obtain ⟨links, -, body, -, rfl⟩ := h
    exact .inr (.inl ⟨range, body, rfl, rfl⟩)
  case assign target var decl op i =>
    obtain ⟨value, hvalue, rfl⟩ := h
    refine .inr (.inr ?_)
    cases decl <;> cases op
    case plain.none => exact .inl ⟨target, var, i, value, rfl, hvalue, rfl⟩
    all_goals exact .inr ⟨rfl, rfl⟩
  all_goals
    refine .inr (.inr (.inr ⟨rfl, ?_⟩))
    grind [Node.isOpen]

end Nodes

/-! ## Trees -/

namespace Arena

variable {a a' : Arena} {i : Nat} {node : Node}

theorem tree?_eq_some_iff : a.tree? i = some node ↔ ∃ entry, a.entries[i]? = some entry ∧
    entry.node? a (fun j => if j < i then a.tree? j else none) = some node := by
  rw [tree?, Option.bind_eq_some_iff]

theorem lt_length_of_tree? (h : a.tree? i = some node) : i < a.entries.length := by
  obtain ⟨entry, hentry, -⟩ := tree?_eq_some_iff.1 h
  exact (List.getElem?_eq_some_iff.1 hentry).1

/-- The links of a tree lead to trees further down. -/
theorem links?_of_tree? (h : a.tree? i = some node) :
    ∃ links, a.links? i = some links ∧ ∀ j ∈ links, j < i ∧ ∃ n, a.tree? j = some n := by
  obtain ⟨entry, hentry, hnode⟩ := tree?_eq_some_iff.1 h
  obtain ⟨links, hlinks, hget⟩ := Entry.links?_of_node? hnode
  refine ⟨links, by rw [links?, hentry, Option.bind_some, hlinks], fun j hj => ?_⟩
  obtain ⟨n, hn⟩ := hget j hj
  split at hn
  · exact ⟨by assumption, n, hn⟩
  · cases hn

theorem tree?_grows (h : a.Grows a') (hi : a.tree? i = some node) : a'.tree? i = some node := by
  induction i using Nat.strongRecOn generalizing node with
  | ind i ih =>
    obtain ⟨entry, hentry, hnode⟩ := tree?_eq_some_iff.1 hi
    refine tree?_eq_some_iff.2 ⟨entry, h.entry hentry, Entry.node?_grows h (fun j n hj => ?_) hnode⟩
    split at hj
    · rename_i hlt
      rw [if_pos hlt, ih j hlt hj]
    · cases hj

/-- The tree that a new entry makes of trees that are there. -/
theorem tree?_of_node? {entry : Entry} (hentry : a'.entries[i]? = some entry) (h : a.Grows a')
    (hi : a.entries.length ≤ i) (hnode : entry.node? a a.tree? = some node) :
    a'.tree? i = some node := by
  refine tree?_eq_some_iff.2 ⟨entry, hentry, Entry.node?_grows h (fun j n hj => ?_) hnode⟩
  have hlt := lt_length_of_tree? hj
  rw [if_pos (by omega), tree?_grows h hj]

/-- The entries that the tree under a link takes up. -/
def cells (a : Arena) (i : Nat) : List Nat :=
  i :: ((a.links? i).getD []).flatMap fun j => if j < i then a.cells j else []
termination_by i

theorem cells_of_tree? (h : a.tree? i = some node) :
    ∃ links, a.links? i = some links ∧ a.cells i = i :: links.flatMap a.cells := by
  obtain ⟨links, hlinks, hlt⟩ := links?_of_tree? h
  refine ⟨links, hlinks, ?_⟩
  rw [cells, hlinks, Option.getD_some]
  congr 1
  refine List.flatMap_congr fun j hj => ?_
  rw [if_pos (hlt j hj).1]

theorem cells_grows (h : a.Grows a') (hi : a.tree? i = some node) : a'.cells i = a.cells i := by
  induction i using Nat.strongRecOn generalizing node with
  | ind i ih =>
    obtain ⟨links, hlinks, hcells⟩ := cells_of_tree? hi
    obtain ⟨links', hlinks', hcells'⟩ := cells_of_tree? (tree?_grows h hi)
    obtain ⟨links'', hlinks'', htrees⟩ := links?_of_tree? hi
    obtain rfl : links = links'' := Option.some.inj (hlinks.symm.trans hlinks'')
    have hsame : links' = links := by
      obtain ⟨entry, hentry, hcell⟩ := Option.bind_eq_some_iff.1 hlinks
      rw [links?, h.entry hentry, Option.bind_some, Cell.links?_grows h hcell] at hlinks'
      exact (Option.some.inj hlinks').symm
    rw [hcells, hcells', hsame]
    congr 1
    refine List.flatMap_congr fun j hj => ?_
    obtain ⟨hlt, n, hn⟩ := htrees j hj
    exact ih j hlt hn

end Arena

end SlotScript.Flat
